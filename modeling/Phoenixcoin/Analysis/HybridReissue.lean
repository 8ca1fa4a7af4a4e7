import Phoenixcoin.Analysis.HybridUsage
import Phoenixcoin.Analysis.LegacyRuns

/-!
# Hybrid keys are not handed out twice

Runs of a wallet, with the keys that were handed out and those that were consumed in another way:
imported, made for an address, or paid. In a run whose steps all record what they consume, no key
is handed out that was handed out or consumed before. `Unlock` and the start otherwise take such a
key for an unused one.
-/

set_option autoImplicit false

namespace Phoenixcoin.Analysis

open Lib Program List Option HybridWallet Finset

variable {C : PassphraseCrypto} {o : WalletDbOutcome} {w w' : HybridWallet}

/-! ## Unlock -/

def UnlocksWith (C : PassphraseCrypto) (w : HybridWallet) (pass : SecureString) : Prop :=
  ∃ kMasterKey ∈ (Table.sortedKeys w.mapMasterKeys).filterMap w.mapMasterKeys.lookup,
    ∃ vMasterKey,
    C.openMasterKey pass kMasterKey = some vMasterKey ∧
      w.opensFirstKey C.toKeyCrypto vMasterKey = true

theorem waits_unlockFrom {pass : SecureString} {l : List CMasterKey} {result : Bool × HybridWallet}
    (h : w.unlockFrom C o pass l = result) :
    result.2 = w ∨ (∃ kMasterKey ∈ l, ∃ vMasterKey,
      C.openMasterKey pass kMasterKey = some vMasterKey ∧
        w.opensFirstKey C.toKeyCrypto vMasterKey = true) ∧ Waits (unrecorded w) w result.2 := by
  induction l with
  | nil =>
    subst h
    exact Or.inl rfl
  | cons kMasterKey rest ih =>
    rw [unlockFrom] at h
    cases hopen : C.openMasterKey pass kMasterKey with
    | none =>
      rw [hopen] at h
      subst h
      exact Or.inl rfl
    | some vMasterKey =>
      rw [hopen] at h
      dsimp only at h
      cases hunlock : w.unlockWith C.toKeyCrypto o vMasterKey with
      | none =>
        rw [hunlock] at h
        rcases ih h with hsame | ⟨⟨other, hother, hopens⟩, hwaits⟩
        · exact Or.inl hsame
        · exact Or.inr ⟨⟨other, mem_cons_of_mem _ hother, hopens⟩, hwaits⟩
      | some unlocked =>
        rw [hunlock] at h
        subst h
        obtain ⟨hopens, hwaits⟩ := waits_unlockWith hunlock
        exact Or.inr ⟨⟨kMasterKey, mem_cons_self, vMasterKey, hopen, hopens⟩, hwaits⟩

theorem waits_Unlock (C : PassphraseCrypto) (o : WalletDbOutcome) (w : HybridWallet)
    (pass : SecureString) :
    (w.Unlock C o pass).2 = w ∨
      w.IsLocked = true ∧ UnlocksWith C w pass ∧ Waits (unrecorded w) w (w.Unlock C o pass).2 := by
  unfold Unlock
  by_cases hlocked : w.IsLocked = true
  · rw [if_neg (not_not.mpr hlocked)]
    rcases waits_unlockFrom rfl with hsame | ⟨hopens, hwaits⟩
    · exact Or.inl hsame
    · exact Or.inr ⟨hlocked, hopens, hwaits⟩
  · rw [if_pos hlocked]
    exact Or.inl rfl

/-! ## The encryption of the wallet -/

section Encryption

variable {vMasterKey : CKeyingMaterial}

theorem sameUsage_addLegacyKey (w : HybridWallet) (key : CKey) (keyMeta : CKeyMetadata)
    (crypted : valtype) : SameUsage w (w.addLegacyKey C.toKeyCrypto key keyMeta crypted) := by
  have hwaits : Waits ∅ w (w.addLegacyKey C.toKeyCrypto key keyMeta crypted) :=
    waits_addLegacyKey w key keyMeta crypted
  exact hwaits.usage

theorem sameUsage_EncryptKeys (h : w.EncryptKeys C o vMasterKey = some w') : SameUsage w w' := by
  unfold EncryptKeys at h
  split at h
  · cases h
  · obtain ⟨u, hu, rfl⟩ := map_eq_some_iff.mp h
    have hkeys : SameUsage w u := by
      apply foldlM_invariant (P := fun (u : HybridWallet) _ => SameUsage w u) ?_ ?_ hu
      · intro address l u u' hinv hstep
        obtain ⟨_, _, pubKey, crypted, keyMeta, db, _, _, _, hdb, rfl⟩ := encryptKey_eq_some hstep
        have hstored : db.hybused = u.db.hybused := by
          split_ifs at hdb
          · exact leavesUsed_WriteCryptedKey pubKey crypted keyMeta u.db db hdb
          · rw [← Option.some.inj hdb]
        exact hinv.trans ⟨rfl, hstored, rfl, id⟩
      · exact ⟨rfl, rfl, rfl, fun _ => rfl⟩
    exact hkeys.trans ⟨rfl, rfl, rfl, id⟩

theorem sameUsage_encryptAll {kMasterKey : CMasterKey}
    (h : w.encryptAll C o kMasterKey vMasterKey = some w') :
    SameUsage w w' ∧ w'.fUseCrypto = true := by
  unfold encryptAll at h
  by_cases hfile : w.fFileBacked = true
  · rw [if_pos hfile] at h
    obtain ⟨u, hu, hloop⟩ := bind_eq_some_iff.mp h
    have hmaster : SameUsage w { w with
        db := (o.WriteMasterKey w.nMasterKeyMaxID kMasterKey w.db).getD w.db } := by
      refine ⟨rfl, ?_, rfl, id⟩
      unfold WalletDbOutcome.WriteMasterKey
      split_ifs <;> rfl
    have hkeys : SameUsage u w' := by
      apply foldlM_invariant (P := fun (v : HybridWallet) _ => SameUsage u v) ?_ ?_ hloop
      · intro hybridID l v v' hinv hstep
        obtain ⟨hk, disk, db, -, -, hdb, rfl⟩ := encryptHybridKey_eq_some hstep
        have hstored : db.hybused = v.db.hybused :=
          leavesUsed_WriteHybridKey hybridID disk v.db db hdb
        exact hinv.trans ⟨rfl, hstored, rfl, id⟩
      · exact SameUsage.refl u
    exact ⟨(hmaster.trans (sameUsage_EncryptKeys hu)).trans hkeys,
      hkeys.crypted (EncryptKeys_eq_some hu).1⟩
  · rw [if_neg hfile] at h
    exact ⟨sameUsage_EncryptKeys h, (EncryptKeys_eq_some h).1⟩

theorem leavesUsed_ErasePools (l : List ℕ) :
    LeavesUsed fun db => l.foldlM (fun db nIndex => o.ErasePool nIndex db) db := by
  intro db db' h
  apply foldlM_invariant (P := fun (mid : WalletRecords) _ => mid.hybused = db.hybused) ?_ rfl h
  intro nIndex rest mid mid' hmid hstep
  have herase : LeavesUsed (o.ErasePool nIndex) := leavesUsed_guarded fun _ => rfl
  exact (herase mid mid' hstep).trans hmid

theorem stagePoolEntries_hybused {nIndex : ℕ} {l : List (NewKey C.toKeyCrypto)}
    {vStaged : List (ℕ × CStagedKey)} {db db' : WalletRecords}
    (h : w.stagePoolEntries C o nIndex l db = some (vStaged, db')) : db'.hybused = db.hybused := by
  induction l generalizing nIndex vStaged db with
  | nil =>
    cases h
    rfl
  | cons fresh rest ih =>
    obtain ⟨⟨staged, mid⟩, hentry, h⟩ := bind_eq_some_iff.mp h
    obtain ⟨⟨vRest, last⟩, hrest, h⟩ := bind_eq_some_iff.mp h
    cases h
    obtain ⟨vchCryptedSecret, -, hentry⟩ := bind_eq_some_iff.mp hentry
    obtain ⟨key, hkey, hentry⟩ := bind_eq_some_iff.mp hentry
    obtain ⟨pool, hpool, hentry⟩ := bind_eq_some_iff.mp hentry
    cases hentry
    have hwrite : LeavesUsed (o.WritePool nIndex ⟨fresh.nTime, fresh.key.vchPubKey⟩) :=
      leavesUsed_guarded fun _ => rfl
    calc db'.hybused = mid.hybused := ih hrest
      _ = key.hybused := hwrite key mid hpool
      _ = db.hybused := leavesUsed_StageKeyRecord w _ _ _ db key hkey

theorem sameUsage_NewKeyPool (w : HybridWallet) (oClear oRefill : WalletDbOutcome)
    (newKeys : List (NewKey C.toKeyCrypto)) :
    SameUsage w (w.NewKeyPool C oClear oRefill newKeys).2 := by
  cases hpool : w.NewKeyPool C oClear oRefill newKeys
  rcases NewKeyPool_cases hpool with hsame | ⟨cleared, hclear, hends⟩
  · rw [hsame]
    exact SameUsage.refl w
  · have hcleared : SameUsage w cleared := by
      obtain ⟨db, hdb, rfl⟩ := map_eq_some_iff.mp hclear
      exact ⟨rfl, (leavesUsed_ErasePools _).transaction hdb, rfl, id⟩
    rcases hends with hsame | ⟨-, hrefill⟩
    · rw [hsame]
      exact hcleared
    · obtain ⟨vStaged, db, hstage, hfilled⟩ := refillKeyPool_eq_some hrefill
      rw [hfilled]
      have hfold (l : List (ℕ × CStagedKey)) (u : HybridWallet) :
          SameUsage u (l.foldl (addPoolEntry C) u) := by
        induction l generalizing u with
        | nil => exact SameUsage.refl u
        | cons entry l ih =>
          have hadd : SameUsage u (addPoolEntry C u entry) :=
            (sameUsage_addLegacyKey u entry.2.key entry.2.metadata entry.2.vchCryptedSecret).trans
              ⟨rfl, rfl, rfl, id⟩
          exact hadd.trans (ih _)
      have hdb : SameUsage cleared { cleared with db := db } :=
        ⟨rfl, stagePoolEntries_hybused hstage, rfl, id⟩
      exact (hcleared.trans hdb).trans (hfold vStaged _)

theorem sameUsage_Unlock (C : PassphraseCrypto) (o : WalletDbOutcome) (w : HybridWallet)
    (pass : SecureString) : SameUsage w (w.Unlock C o pass).2 := by
  rcases waits_Unlock C o w pass with hsame | ⟨-, -, hwaits⟩
  · rw [hsame]
    exact SameUsage.refl w
  · exact hwaits.usage

theorem finishEncryption_usage {pass : SecureString} {e : EncryptionInput C.toKeyCrypto}
    {o : EncryptionOutcome} (hcrypted : w.fUseCrypto = true) :
    SameUsage w (w.finishEncryption C pass e o).wallet ∧
      (w.finishEncryption C pass e o).wallet.setUnusedHybridKeys = ∅ := by
  have hunlocked := (waits_Lock w).usage.trans (sameUsage_Unlock C o.unlock w.Lock.2 pass)
  have hpool := hunlocked.trans (sameUsage_NewKeyPool _ o.clear o.refill e.newKeys)
  exact ⟨hpool.trans (waits_Lock _).usage, Lock_unused (hpool.crypted hcrypted)⟩

theorem waits_EncryptWallet {pass : SecureString} {e : EncryptionInput C.toKeyCrypto}
    {o : EncryptionOutcome} {ended : EncryptionEnd} {fDone : Bool}
    (hended : w.EncryptWallet C pass e o = ended) (hresult : ended.result = some fDone) :
    Waits ∅ w ended.wallet := by
  unfold EncryptWallet at hended
  split at hended
  · subst hended
    exact Waits.refl ∅ w
  · split at hended
    · subst hended
      exact Waits.refl ∅ w
    · next kMasterKey _ =>
      split at hended
      · subst hended
        exact Waits.refl ∅ w
      · have hstarted : SameUsage w { w with
            nMasterKeyMaxID := w.nMasterKeyMaxID + 1
            mapMasterKeys := w.mapMasterKeys.insert (w.nMasterKeyMaxID + 1) kMasterKey
            pwalletdbEncryption := w.pwalletdbEncryption || w.fFileBacked } :=
          ⟨rfl, rfl, rfl, id⟩
        dsimp only at hended
        split at hended
        · subst hended
          exact Waits.of_same hstarted rfl
        · split at hended
          · subst hended
            cases hresult
          · next encrypted hall =>
            split at hended
            · subst hended
              cases hresult
            · subst hended
              obtain ⟨hall, hcrypted⟩ := sameUsage_encryptAll hall
              have hclosed : SameUsage encrypted { encrypted with pwalletdbEncryption := false } :=
                ⟨rfl, rfl, rfl, id⟩
              have hends := @finishEncryption_usage C
                { encrypted with pwalletdbEncryption := false } pass e o hcrypted
              exact ⟨((hstarted.trans hall).trans hclosed).trans hends.1, by
                rw [hends.2]
                exact fun _ hmem => absurd hmem (notMem_empty _)⟩

end Encryption

/-! ## The start -/

section Start

variable {C : KeyCrypto}

variable {hybridID : CHybridKeyID}

/-- A key that joins is the only new one. -/
theorem held_addHybridKey {id : CHybridKeyID} {hk : CHybridKey} {disk : Option CHybridKeyDisk}
    (h : (w.addHybridKey id hk disk).HaveHybridKeyByHash hybridID = true) :
    w.HaveHybridKeyByHash hybridID = true ∨ hybridID = id := by
  by_cases hid : hybridID = id
  · exact Or.inr hid
  · left
    have hkeys : (w.addHybridKey id hk disk).mapHybridKeys.lookup hybridID =
        w.mapHybridKeys.lookup hybridID := by
      rw [lookup_addHybridKey, if_neg hid, or_none]
    have hrecords : (w.addHybridKey id hk disk).mapHybridKeyDisk.lookup hybridID =
        w.mapHybridKeyDisk.lookup hybridID := by
      rw [lookup_addHybridKey_disk, if_neg (not_and_of_not_left _ hid)]
    unfold CKeyStore.HaveHybridKeyByHash at h ⊢
    rwa [hkeys, hrecords] at h

theorem held_registerPoolKey {entry : StagedHybridKey} {fUnused : Bool}
    (h : (registerPoolKey C fUnused w entry).HaveHybridKeyByHash hybridID = true) :
    w.HaveHybridKeyByHash hybridID = true ∨ hybridID = entry.hybridID := by
  unfold registerPoolKey at h
  generalize hw₁ : (if entry.fPersistKey then
    w.addLegacyKey C entry.ecdsa entry.metadata entry.cryptedSecret else w) = w₁ at h
  have hsame : SameHybridKeys w w₁ := by
    rw [← hw₁]
    split_ifs
    · exact sameHybridKeys_addLegacyKey ..
    · exact SameHybridKeys.refl w
  rcases held_addHybridKey (w := w₁) h with hold | hid
  · left
    unfold CKeyStore.HaveHybridKeyByHash at hold ⊢
    rwa [hsame.loaded, hsame.atRest] at hold
  · exact Or.inr hid

/-- The pool brings no other keys than its own. -/
theorem held_EnsureHybridKeyPool {nTarget : ℕ} {fresh : ℕ → Option (FreshKey C)} {fOk : Bool}
    (h : w.EnsureHybridKeyPool C o nTarget fresh = (fOk, w'))
    (hheld : w'.HaveHybridKeyByHash hybridID = true) :
    w.HaveHybridKeyByHash hybridID = true ∨ hybridID ∈ newIDs C fresh := by
  rcases EnsureHybridKeyPool_cases fresh h with rfl | ⟨-, -, hpool⟩
  · exact Or.inl hheld
  · obtain ⟨staged, db, hstaged, -, rfl⟩ := makePool_eq_some hpool
    have hkeys : ∀ (l : List StagedHybridKey) (u : HybridWallet),
        (l.foldl (registerPoolKey C true) u).HaveHybridKeyByHash hybridID = true →
          u.HaveHybridKeyByHash hybridID = true ∨ ∃ entry ∈ l, hybridID = entry.hybridID := by
      intro l
      induction l with
      | nil => exact fun u hu => Or.inl hu
      | cons entry l ih =>
        intro u hu
        rcases ih _ hu with hbefore | ⟨other, hother, hid⟩
        · rcases held_registerPoolKey hbefore with hold | hid
          · exact Or.inl hold
          · exact Or.inr ⟨entry, mem_cons_self, hid⟩
        · exact Or.inr ⟨other, mem_cons_of_mem _ hother, hid⟩
    rcases hkeys staged _ hheld with hold | ⟨entry, hentry, rfl⟩
    · exact Or.inl hold
    · right
      refine ⟨nTarget - w.mapHybridKeys.keys.card, ?_⟩
      rw [← map_hybridID_eq hstaged]
      exact mem_map_of_mem hentry

theorem held_of_unused (h : hybridID ∈ w.RebuildUnusedHybridKeySet.setUnusedHybridKeys) :
    w.HaveHybridKeyByHash hybridID = true ∧ hybridID ∉ w.setUsedHybridKeys := by
  rw [CKeyStore.HaveHybridKeyByHash, Bool.or_eq_true, Finmap.lookup_isSome, Finmap.lookup_isSome]
  rcases mem_union.mp h with hloaded | hrecord
  · obtain ⟨hin, hunused⟩ := mem_filter.mp hloaded
    exact ⟨Or.inl (Finmap.mem_keys.mp hin), hunused⟩
  · obtain ⟨hin, hunused⟩ := mem_filter.mp hrecord
    exact ⟨Or.inr (Finmap.mem_keys.mp hin), hunused⟩

theorem usage_of_loadKeys {db : WalletRecords} (h : loadKeys C db = some w) :
    w.setUsedHybridKeys = db.hybused.getD ∅ ∧ w.db = db ∧ w.fFileBacked = true := by
  obtain ⟨u, hrecords, rfl⟩ := map_eq_some_iff.mp h
  obtain ⟨-, -, hfile, hdb⟩ := noHybridKeys_of_loadRecords hrecords
  have hcached : ∀ (l : List CHybridKeyID) (v : HybridWallet),
      (l.foldl (cacheHybridKey C) v).setUsedHybridKeys = v.setUsedHybridKeys ∧
        (l.foldl (cacheHybridKey C) v).db = v.db ∧
        (l.foldl (cacheHybridKey C) v).fFileBacked = v.fFileBacked := by
    intro l
    induction l with
    | nil => exact fun v => ⟨rfl, rfl, rfl⟩
    | cons hybridID l ih =>
      intro v
      obtain ⟨hused, hdb, hfile⟩ := ih (cacheHybridKey C v hybridID)
      rw [foldl_cons, hused, hdb, hfile]
      unfold cacheHybridKey
      split
      · exact ⟨rfl, rfl, rfl⟩
      · split_ifs <;> exact ⟨rfl, rfl, rfl⟩
  have hloaded : ∀ (l : List CHybridKeyDisk) (v : HybridWallet),
      (l.foldl (LoadHybridKey C) v).setUsedHybridKeys = v.setUsedHybridKeys ∧
        (l.foldl (LoadHybridKey C) v).db = v.db ∧
        (l.foldl (LoadHybridKey C) v).fFileBacked = v.fFileBacked := by
    intro l
    induction l with
    | nil => exact fun v => ⟨rfl, rfl, rfl⟩
    | cons disk l ih =>
      intro v
      obtain ⟨hused, hdb, hfile⟩ := ih (LoadHybridKey C v disk)
      rw [foldl_cons, hused, hdb, hfile]
      unfold LoadHybridKey
      split
      · exact ⟨rfl, rfl, rfl⟩
      · split
        · exact ⟨rfl, rfl, rfl⟩
        · split <;> exact ⟨rfl, rfl, rfl⟩
  unfold LoadHybridKeys
  dsimp only
  split_ifs
  · obtain ⟨hused, hfrom, hbacked⟩ := hcached (Table.sortedKeys u.db.hyb)
      { u with setUsedHybridKeys := u.db.hybused.getD ∅ }
    rw [hused, hfrom, hbacked]
    exact ⟨by rw [hdb], hdb, hfile⟩
  · obtain ⟨hused, hfrom, hbacked⟩ := hloaded
      ((Table.sortedKeys u.db.hyb).filterMap u.db.hyb.lookup)
      { u with setUsedHybridKeys := u.db.hybused.getD ∅ }
    rw [hused, hfrom, hbacked]
    exact ⟨by rw [hdb], hdb, hfile⟩

end Start

/-! ## Runs -/

/-- A wallet, the transactions that its database holds, and what has become of its hybrid keys:
those that `GetUnusedHybridKey` returned, and those that were imported, made for an address or
paid. -/
structure UsageState where
  wallet : HybridWallet
  txRecords : Table uint256 CTransaction
  returned : Finset CHybridKeyID
  consumed : Finset CHybridKeyID

/-- Whether an output pays a key: its own address, the legacy address of its EC half, or both of
its halves. -/
def paysKey (C : KeyCrypto) (w : HybridWallet) (txout : CTxOut) (hybridID : CHybridKeyID) : Bool :=
  match ExtractDestination C.toDigests txout.scriptPubKey with
  | some (.hybridKey keyHash) => keyHash = hybridID
  | some (.key keyID) =>
    ((w.mapHybridKeys.lookup hybridID).any fun hk => C.GetID hk.secpPub = keyID) ||
      (w.mapHybridKeyDisk.lookup hybridID).any fun disk => C.GetID disk.keys.secpPub = keyID
  | _ =>
    match Solver txout.scriptPubKey with
    | some (.TX_HYBRID_PUBKEY, [secpPub, mldsaPub]) => C.Hash160 (secpPub ++ mldsaPub) = hybridID
    | _ => false

def paidKeys (C : KeyCrypto) (w : HybridWallet) (outputs : List CTxOut) : Finset CHybridKeyID :=
  (w.mapHybridKeys.keys ∪ w.mapHybridKeyDisk.keys).filter fun hybridID =>
    outputs.any fun txout => paysKey C w txout hybridID

/-- The beginning of a run. -/
def UsageState.start (C : KeyCrypto) (w : HybridWallet) (txRecords : Table uint256 CTransaction) :
    UsageState :=
  ⟨w, txRecords, ∅, paidKeys C w w.walletOutputs⟩

/-- The key that an import brings, or that `EnsureHybridKey` attaches to an address. -/
def consumedBy (C : KeyCrypto) (w : HybridWallet) : HybridKeyOp C → Option CHybridKeyID
  | .ensureHybridKey o pkey nTime keyID =>
    if (w.EnsureHybridKey C o (pkey.map Subtype.val) nTime keyID).1 then
      (w.GetHybridKeyIDByLegacyKeyID C keyID).or <| pkey.bind fun p =>
        (w.GetKey C keyID).bind fun key => (hybridKeyOf key p nTime).GetHybridID C
    else none
  | .importHybridKey o r => (w.ImportHybridKeyFromComponents C o r).toOption.map Prod.fst
  | _ => none

/-- What may happen to a wallet. -/
inductive UsageOp (C : PassphraseCrypto) where
  | makeKeys (op : HybridKeyOp C.toKeyCrypto)
  | getUnused (o oPool : WalletDbOutcome) (fresh : ℕ → Option (FreshKey C.toKeyCrypto))
  | label (o : WalletDbOutcome) (nTime : ℤ) (keyID : CHybridKeyID) (strName strPurpose : List UInt8)
  | addTransaction (hash : uint256) (tx : CTransaction)
  | encryptWallet (pass : SecureString) (e : EncryptionInput C.toKeyCrypto) (o : EncryptionOutcome)
  | lock
  | unlock (o : WalletDbOutcome) (pass : SecureString)
  | backfill (o : WalletDbOutcome)
  | reload (o oPool : WalletDbOutcome) (fresh : ℕ → Option (FreshKey C.toKeyCrypto))

namespace UsageState

/-- The wallet that a start loads from the database, before it looks at the used keys; none where
the wallet has no file. -/
def loaded (C : KeyCrypto) (s : UsageState) : Option HybridWallet :=
  if s.wallet.fFileBacked then
    (loadKeys C s.wallet.db).map fun w => { w with mapWallet := s.txRecords }
  else none

/-- The state after an operation; none where the process has ended. -/
def step (s : UsageState) : UsageOp C → Option UsageState
  | .makeKeys op => some { s with
      wallet := (op.run s.wallet).2
      consumed := s.consumed ∪ (consumedBy C.toKeyCrypto s.wallet op).toFinset }
  | .getUnused o oPool fresh =>
    let result := s.wallet.GetUnusedHybridKey C.toKeyCrypto o oPool fresh
    some { s with wallet := result.2, returned := s.returned ∪ result.1.toFinset }
  | .label o nTime keyID strName strPurpose => some { s with
      wallet := (s.wallet.SetHybridAddressBookName o nTime keyID strName strPurpose).2 }
  | .addTransaction hash tx => some {
      wallet := { s.wallet with mapWallet := emplace hash tx s.wallet.mapWallet }
      txRecords := if s.wallet.fFileBacked then emplace hash tx s.txRecords else s.txRecords
      returned := s.returned
      consumed := s.consumed ∪ paidKeys C.toKeyCrypto s.wallet tx.vout }
  | .encryptWallet pass e o =>
    let ended := s.wallet.EncryptWallet C pass e o
    ended.result.map fun _ => { s with wallet := ended.wallet }
  | .lock => some { s with wallet := s.wallet.Lock.2 }
  | .unlock o pass => some { s with wallet := (s.wallet.Unlock C o pass).2 }
  | .backfill o => some { s with wallet := s.wallet.BackfillHybridUsedKeys C.toKeyCrypto o }
  | .reload o oPool fresh =>
    (s.loaded C.toKeyCrypto).bind fun u =>
      (LoadWallet C.toKeyCrypto o s.txRecords oPool fresh s.wallet.db).map fun w =>
        { s with
          wallet := w
          consumed := s.consumed ∪ paidKeys C.toKeyCrypto u u.walletOutputs }

/-- The key that an operation hands out. -/
def issued (s : UsageState) : UsageOp C → Option CHybridKeyID
  | .getUnused o oPool fresh => (s.wallet.GetUnusedHybridKey C.toKeyCrypto o oPool fresh).1
  | _ => none

/-- No key is handed out that was handed out or consumed before. -/
def NeverReissues (s : UsageState) (op : UsageOp C) : Prop :=
  ∀ hybridID, s.issued op = some hybridID → hybridID ∉ s.returned ∧ hybridID ∉ s.consumed

/-- An operation records what it consumes: it consumes no key that waits, it makes no key a second
time, and it lets no consumed key wait again. -/
def Remembers (s : UsageState) : UsageOp C → Prop
  | .makeKeys op =>
    (∀ hybridID ∈ pooledIDs s.wallet op, hybridID ∉ s.returned ∧ hybridID ∉ s.consumed) ∧
      ∀ hybridID ∈ consumedBy C.toKeyCrypto s.wallet op, hybridID ∉ s.wallet.setUnusedHybridKeys
  | .getUnused _ _ fresh => ∀ hybridID ∈ refillIDs C.toKeyCrypto s.wallet fresh,
      hybridID ∉ s.returned ∧ hybridID ∉ s.consumed
  | .addTransaction _ tx => ∀ hybridID ∈ paidKeys C.toKeyCrypto s.wallet tx.vout,
      hybridID ∉ s.wallet.setUnusedHybridKeys
  | .unlock _ pass => s.wallet.IsLocked = true → UnlocksWith C s.wallet pass →
      ∀ hybridID ∈ s.consumed, hybridID ∉ unrecorded s.wallet
  | .reload _ _ fresh => ∀ u, s.loaded C.toKeyCrypto = some u →
      ∀ hybridID ∈ s.consumed ∪ paidKeys C.toKeyCrypto u u.walletOutputs,
        (u.HaveHybridKeyByHash hybridID = true → hybridID ∈ backfilled C.toKeyCrypto u) ∧
          hybridID ∉ newIDs C.toKeyCrypto fresh
  | _ => True

end UsageState

open UsageState

/-- The waiting keys were neither handed out nor consumed, and those that were handed out are in
the set of used keys, in memory and on disk. -/
structure FreshKeysWait (s : UsageState) : Prop where
  fresh : ∀ hybridID ∈ s.wallet.setUnusedHybridKeys, hybridID ∉ s.returned ∧ hybridID ∉ s.consumed
  used : s.returned ⊆ s.wallet.setUsedHybridKeys
  stored : s.wallet.fFileBacked = true → s.returned ⊆ s.wallet.db.hybused.getD ∅

namespace FreshKeysWait

variable {s s' : UsageState}

variable {ids : Set CHybridKeyID} {fresh : ℕ → Option (FreshKey C.toKeyCrypto)}
  {oPool : WalletDbOutcome} {op : UsageOp C}

section

variable (h : FreshKeysWait s) (hw : Waits ids s.wallet w')
  (hids : ∀ hybridID ∈ ids, hybridID ∉ s.returned ∧ hybridID ∉ s.consumed)
include h hw hids

theorem waits (more : Finset CHybridKeyID) (txRecords : Table uint256 CTransaction)
    (hmore : ∀ hybridID ∈ more, hybridID ∉ s.wallet.setUnusedHybridKeys ∧ hybridID ∉ ids) :
    FreshKeysWait ⟨w', txRecords, s.returned, s.consumed ∪ more⟩ where
  fresh := by
    intro hybridID hmem
    have hnew : hybridID ∉ s.returned ∧ hybridID ∉ s.consumed ∧ hybridID ∉ more := by
      rcases hw.waiting hybridID hmem with hbefore | hid
      · obtain ⟨hreturned, hconsumed⟩ := h.fresh hybridID hbefore
        exact ⟨hreturned, hconsumed, fun hin => (hmore hybridID hin).1 hbefore⟩
      · obtain ⟨hreturned, hconsumed⟩ := hids hybridID hid
        exact ⟨hreturned, hconsumed, fun hin => (hmore hybridID hin).2 hid⟩
    refine ⟨hnew.1, ?_⟩
    rw [mem_union, not_or]
    exact hnew.2
  used := by
    rw [hw.usage.used]
    exact h.used
  stored := by
    intro hfile
    rw [hw.usage.stored]
    exact h.stored (hw.usage.fileBacked ▸ hfile)

theorem waits_only : FreshKeysWait { s with wallet := w' } := by
  have hends := h.waits hw hids ∅ s.txRecords (fun _ hmem => absurd hmem (notMem_empty _))
  rwa [union_empty] at hends

end

section

variable (h : FreshKeysWait s)
include h

theorem issues {hybridID : CHybridKeyID} (hissues : Issues s.wallet w' hybridID) :
    FreshKeysWait { s with wallet := w', returned := s.returned ∪ {hybridID} } where
  fresh := by
    intro other hmem
    rw [hissues.waiting] at hmem
    obtain ⟨hne, hbefore⟩ := Finset.mem_erase.mp hmem
    obtain ⟨hreturned, hconsumed⟩ := h.fresh other hbefore
    refine ⟨?_, hconsumed⟩
    rw [Finset.mem_union, Finset.mem_singleton, not_or]
    exact ⟨hreturned, hne⟩
  used := by
    rw [hissues.used, Finset.union_comm]
    exact Finset.insert_subset_insert hybridID h.used
  stored := by
    intro hbacked
    rw [hissues.stored hbacked, hissues.used, Finset.union_comm]
    exact Finset.insert_subset_insert hybridID h.used

theorem makeKeys {op : HybridKeyOp C.toKeyCrypto} (hremembers : s.Remembers (.makeKeys op)) :
    FreshKeysWait { s with
      wallet := (op.run s.wallet).2
      consumed := s.consumed ∪ (consumedBy C.toKeyCrypto s.wallet op).toFinset } := by
  obtain ⟨hpooled, hconsumes⟩ := hremembers
  have hwaits : Waits (pooledIDs s.wallet op) s.wallet (op.run s.wallet).2 := by
    cases hrun : op.run s.wallet
    rcases op.run_cases hrun with rfl | ⟨-, hmakes⟩
    · exact Waits.refl ..
    · exact waits_makes hmakes
  apply h.waits hwaits hpooled
  intro hybridID hin
  have hin : consumedBy C.toKeyCrypto s.wallet op = some hybridID := Option.mem_toFinset.mp hin
  refine ⟨hconsumes hybridID hin, ?_⟩
  intro hpool
  cases op with
  | ensureHybridKeyPool o nTarget fresh => cases hin
  | newHybridKeyPool o fresh => exact hpool
  | ensureHybridKey o pkey nTime keyID => exact hpool
  | importHybridKey o r => exact hpool

theorem getUnused (hremembers : s.Remembers (.getUnused o oPool fresh))
    {result : Option CHybridKeyID × HybridWallet}
    (hresult : s.wallet.GetUnusedHybridKey C.toKeyCrypto o oPool fresh = result) :
    (∀ hybridID, result.1 = some hybridID → hybridID ∉ s.returned ∧ hybridID ∉ s.consumed) ∧
      FreshKeysWait { s with
        wallet := result.2, returned := s.returned ∪ result.1.toFinset } := by
  rcases GetUnusedHybridKey_cases hresult with
    ⟨hnone, hwaits⟩ | ⟨hybridID, u, hsome, hwaits, hissues⟩
  · rw [hnone, toFinset_none, union_empty]
    exact ⟨nofun, h.waits_only hwaits hremembers⟩
  · have hrefilled : FreshKeysWait { s with wallet := u } := h.waits_only hwaits hremembers
    rw [hsome]
    refine ⟨?_, hrefilled.issues hissues⟩
    intro other hother
    rw [← Option.some.inj hother]
    exact hrefilled.fresh hybridID hissues.waited

theorem unlock {pass : SecureString} (hremembers : s.Remembers (.unlock o pass : UsageOp C)) :
    FreshKeysWait { s with wallet := (s.wallet.Unlock C o pass).2 } := by
  rcases waits_Unlock C o s.wallet pass with hsame | ⟨hlocked, hopens, hwaits⟩
  · rw [hsame]
    exact h
  · apply h.waits_only hwaits
    intro hybridID hid
    refine ⟨?_, ?_⟩
    · exact fun hreturned => hid.2 (h.used hreturned)
    · exact fun hconsumed => hremembers hlocked hopens hybridID hconsumed hid

theorem backfill :
    FreshKeysWait { s with wallet := s.wallet.BackfillHybridUsedKeys C.toKeyCrypto o } := by
  obtain ⟨hused, hunused, hstored⟩ := BackfillHybridUsedKeys_spec C.toKeyCrypto o s.wallet
  refine ⟨?_, ?_, ?_⟩
  · exact h.fresh
  · exact h.used.trans subset_backfilled
  · intro hfile
    rcases hstored with hsame | hwritten
    · rw [hsame]
      exact h.stored hfile
    · rw [hwritten]
      exact h.used.trans subset_backfilled

end

/-- What a start finds in the database, and goes on with. -/
theorem loaded_eq_some {u : HybridWallet} (hu : s.loaded C.toKeyCrypto = some u) :
    s.wallet.fFileBacked = true ∧ u.setUsedHybridKeys = s.wallet.db.hybused.getD ∅ ∧
      u.db = s.wallet.db ∧
      ∀ (o oPool : WalletDbOutcome) (fresh : ℕ → Option (FreshKey C.toKeyCrypto)),
        LoadWallet C.toKeyCrypto o s.txRecords oPool fresh s.wallet.db =
          some ((u.BackfillHybridUsedKeys C.toKeyCrypto o).EnsureHybridKeyPool
            C.toKeyCrypto oPool 20 fresh).2.RebuildUnusedHybridKeySet := by
  unfold loaded at hu
  split at hu
  · next hfile =>
    obtain ⟨v, hv, rfl⟩ := map_eq_some_iff.mp hu
    obtain ⟨hrecorded, hdb, -⟩ := usage_of_loadKeys hv
    refine ⟨hfile, hrecorded, hdb, ?_⟩
    intro o oPool fresh
    rw [LoadWallet, hv]
    rfl
  · cases hu

/-- A start takes the used keys from the database, the labels and the transactions. -/
theorem reload (h : FreshKeysWait s) (hremembers : s.Remembers (.reload o oPool fresh))
    (hstep : s.step (.reload o oPool fresh) = some s') : FreshKeysWait s' := by
  obtain ⟨u, hu, hstep⟩ := bind_eq_some_iff.mp hstep
  obtain ⟨w, hw, rfl⟩ := map_eq_some_iff.mp hstep
  have hknown := hremembers u hu
  obtain ⟨hfile, hrecorded, hdb, hloaded⟩ := loaded_eq_some hu
  rw [hloaded o oPool fresh] at hw
  have hreturned : s.returned ⊆ backfilled C.toKeyCrypto u := by
    apply (h.stored hfile).trans
    rw [← hrecorded]
    exact subset_backfilled
  obtain ⟨hused, -, hstored⟩ := BackfillHybridUsedKeys_spec C.toKeyCrypto o u
  cases hpool : (u.BackfillHybridUsedKeys C.toKeyCrypto o).EnsureHybridKeyPool
    C.toKeyCrypto oPool 20 fresh with
  | mk fOk p =>
    rw [hpool] at hw
    have hpooled := (waits_EnsureHybridKeyPool hpool).usage
    rw [← Option.some.inj hw]
    refine ⟨?_, ?_, ?_⟩
    · intro hybridID hmem
      obtain ⟨hheld, hunused⟩ := held_of_unused hmem
      rw [hpooled.used] at hunused
      refine ⟨fun hin => hunused (hreturned hin), ?_⟩
      intro hconsumed
      obtain ⟨hbackfilled, hnotNew⟩ := hknown hybridID hconsumed
      rcases held_EnsureHybridKeyPool hpool hheld with hbefore | hnew
      · exact hunused (hbackfilled hbefore)
      · exact hnotNew hnew
    · show s.returned ⊆ p.setUsedHybridKeys
      rw [hpooled.used]
      exact hreturned
    · intro _
      show s.returned ⊆ p.db.hybused.getD ∅
      rw [hpooled.stored]
      rcases hstored with hsame | hwritten
      · rw [hsame, hdb]
        exact h.stored hfile
      · rw [hwritten]
        exact hreturned

theorem step (h : FreshKeysWait s) (hremembers : s.Remembers op) (hstep : s.step op = some s') :
    FreshKeysWait s' := by
  cases op with
  | makeKeys op =>
    cases hstep
    exact h.makeKeys hremembers
  | getUnused o oPool fresh =>
    cases hstep
    exact (h.getUnused hremembers rfl).2
  | label o nTime keyID strName strPurpose =>
    cases hstep
    exact h.waits_only (waits_SetHybridAddressBookName nTime keyID strName strPurpose)
      fun _ hid => hid.elim
  | addTransaction hash tx =>
    cases hstep
    have hwaits : Waits ∅ s.wallet { s.wallet with
        mapWallet := emplace hash tx s.wallet.mapWallet } := Waits.of_same ⟨rfl, rfl, rfl, id⟩ rfl
    exact h.waits hwaits (fun _ hid => hid.elim) _ _ fun hybridID hpaid =>
      ⟨hremembers hybridID hpaid, id⟩
  | encryptWallet pass e o =>
    obtain ⟨fDone, hresult, rfl⟩ := map_eq_some_iff.mp hstep
    exact h.waits_only (waits_EncryptWallet rfl hresult) fun _ hid => hid.elim
  | lock =>
    cases hstep
    exact h.waits_only (waits_Lock s.wallet) fun _ hid => hid.elim
  | unlock o pass =>
    cases hstep
    exact h.unlock hremembers
  | backfill o =>
    cases hstep
    exact h.backfill
  | reload o oPool fresh => exact h.reload hremembers hstep

theorem neverReissues (h : FreshKeysWait s) (hremembers : s.Remembers op) :
    s.NeverReissues op := by
  intro hybridID hissued
  cases op with
  | getUnused o oPool fresh => exact (h.getUnused hremembers rfl).1 hybridID hissued
  | _ => cases hissued

end FreshKeysWait

/-- In a run whose operations all record what they consume, `GetUnusedHybridKey` returns no key
that it returned before, and none that was imported, made for an address or paid. -/
theorem getUnusedHybridKey_fresh (C : PassphraseCrypto) {w : HybridWallet}
    {txRecords : Table uint256 CTransaction} {ops : List (UsageOp C)}
    (hstart : w.setUnusedHybridKeys = ∅)
    (hremembers : ∀ before op after s, ops = before ++ op :: after →
      before.foldlM step (start C.toKeyCrypto w txRecords) = some s →
      s.Remembers op) :
    ∀ before op after s, ops = before ++ op :: after →
      before.foldlM step (start C.toKeyCrypto w txRecords) = some s →
      s.NeverReissues op := by
  intro before op after s hops hrun
  have hfirst : FreshKeysWait (start C.toKeyCrypto w txRecords) := by
    refine ⟨?_, empty_subset _, fun _ => empty_subset _⟩
    intro hybridID hmem
    have hmem : hybridID ∈ w.setUnusedHybridKeys := hmem
    rw [hstart] at hmem
    exact absurd hmem (notMem_empty _)
  have hend := foldlM_invariant (P := fun s rest => FreshKeysWait s ∧
    ∀ first op last s', rest = first ++ op :: last →
      first.foldlM step s = some s' → s'.Remembers op) ?_
    ⟨hfirst, fun first op' last s' hbefore hfirst => hremembers first op' (last ++ op :: after) s'
      (by rw [hops, hbefore, append_assoc, cons_append]) hfirst⟩ hrun
  · exact hend.1.neverReissues (hremembers before op after s hops hrun)
  · rintro op' rest s s' ⟨hs, hrest⟩ hstep
    refine ⟨hs.step (hrest [] op' rest s rfl rfl) hstep, ?_⟩
    intro first next last s'' hsplit hfirst
    apply hrest (op' :: first) next last s''
    · rw [hsplit]
      rfl
    · exact foldlM_cons_eq_some.mpr ⟨s', hstep, hfirst⟩

/-! ## Keys that are imported -/

def importOf (i : ℕ) : HybridKeyOp exampleCrypto :=
  .importHybridKey {}
    { importRequest 1 with vchSecret := some (UInt8.ofNat i :: replicate 31 1, true) }

def importingRun : List (UsageOp examplePassphraseCrypto) :=
  [.makeKeys (importOf 1), .makeKeys (importOf 2), .makeKeys (importOf 3), .makeKeys (importOf 4),
    .makeKeys (importOf 5), .encryptWallet [1] exampleEncryption {}, .unlock {} [1]]

def request : UsageOp examplePassphraseCrypto := .getUnused {} {} fun _ => none

/-- The unlock takes the imported keys for unused ones. -/
theorem importingRun_reissues : ∃ s, importingRun.foldlM step
    (start exampleCrypto newHybridWallet ∅) = some s ∧
      ∃ hybridID, s.issued request = some hybridID ∧ hybridID ∈ s.consumed := by
  have hunlocked : ∃ s, importingRun.foldlM step
      (start exampleCrypto newHybridWallet ∅) = some s ∧
        5 ≤ s.wallet.setUnusedHybridKeys.card ∧ s.wallet.setUnusedHybridKeys ⊆ s.consumed := by
    have hwait : ((importingRun.foldlM step
        (start exampleCrypto newHybridWallet ∅)).any fun s =>
          decide (5 ≤ s.wallet.setUnusedHybridKeys.card ∧
            s.wallet.setUnusedHybridKeys ⊆ s.consumed)) = true := by with_unfolding_all decide
    obtain ⟨s, hs, hkeys⟩ := (Option.any_eq_true ..).mp hwait
    exact ⟨s, hs, of_decide_eq_true hkeys⟩
  obtain ⟨s, hs, hmany, hconsumed⟩ := hunlocked
  obtain ⟨hybridID, hwaited, hissued⟩ := GetUnusedHybridKey_eq_some (C := exampleCrypto) (o := {})
    hmany rfl {} fun _ => none
  exact ⟨s, hs, hybridID, hissued, hconsumed hwaited⟩

theorem getUnusedHybridKey_reissues : ¬ ∀ (C : PassphraseCrypto) (w : HybridWallet)
    (txRecords : Table uint256 CTransaction) (ops : List (UsageOp C)),
    w.setUnusedHybridKeys = ∅ → ∀ (before : List (UsageOp C)) (op : UsageOp C)
      (after : List (UsageOp C)) (s : UsageState), ops = before ++ op :: after →
      before.foldlM step (start C.toKeyCrypto w txRecords) = some s →
      s.NeverReissues op := by
  intro h
  obtain ⟨s, hrun, hybridID, hissued, hconsumed⟩ := importingRun_reissues
  have hfresh := h examplePassphraseCrypto newHybridWallet ∅ (importingRun ++ [request]) rfl
    importingRun request [] s rfl hrun
  exact (hfresh hybridID hissued).2 hconsumed

/-! ## Keys of the pool -/

/-- The keys that the generators bring. -/
def freshKeyOf (i : ℕ) : FreshKey exampleCrypto where
  key := ⟨UInt8.ofNat i :: replicate 31 1, 2 :: UInt8.ofNat i :: replicate 31 1, true⟩
  pkey := [8]
  nTime := 1
  set := rfl
  generated := rfl

def poolAndImport : List (UsageOp examplePassphraseCrypto) :=
  [.makeKeys (.ensureHybridKeyPool {} 5 fun i => some (freshKeyOf i)), .makeKeys (importOf 5)]

variable {s : UsageState}

theorem poolAndImport_waiting (hrun : poolAndImport.foldlM step
    (start exampleCrypto newHybridWallet ∅) = some s) :
    5 ≤ s.wallet.setUnusedHybridKeys.card := by
  have hwaiting : (poolAndImport.foldlM step
      (start exampleCrypto newHybridWallet ∅)).all (fun s =>
        decide (5 ≤ s.wallet.setUnusedHybridKeys.card)) = true := by with_unfolding_all decide
  rw [hrun] at hwaiting
  exact of_decide_eq_true hwaiting

theorem poolAndImport_remembers {before after : List (UsageOp examplePassphraseCrypto)}
    {op : UsageOp examplePassphraseCrypto}
    (hops : poolAndImport ++ [request] = before ++ op :: after)
    (hrun : before.foldlM step (start exampleCrypto newHybridWallet ∅) =
      some s) : s.Remembers op := by
  rcases before with _ | ⟨first, _ | ⟨second, _ | ⟨third, before⟩⟩⟩
  · obtain ⟨rfl, -⟩ := cons.inj hops
    cases hrun
    exact ⟨fun _ _ => ⟨notMem_empty _, notMem_empty _⟩, nofun⟩
  · obtain ⟨hfirst, hrest⟩ := cons.inj hops
    obtain ⟨hop, -⟩ := cons.inj hrest
    subst hfirst hop
    have hnew : ((poolAndImport.take 1).foldlM step
        (start exampleCrypto newHybridWallet ∅)).all (fun s =>
          (consumedBy exampleCrypto s.wallet (importOf 5)).all fun hybridID =>
            decide (hybridID ∉ s.wallet.setUnusedHybridKeys)) = true := by with_unfolding_all decide
    have hrun : (poolAndImport.take 1).foldlM step
      (start exampleCrypto newHybridWallet ∅) = some s := hrun
    rw [hrun, all_some] at hnew
    refine ⟨fun _ hid => hid.elim, ?_⟩
    intro hybridID hconsumed
    have hconsumed : consumedBy exampleCrypto s.wallet (importOf 5) = some hybridID := hconsumed
    rw [hconsumed] at hnew
    exact of_decide_eq_true hnew
  · obtain ⟨hfirst, hrest⟩ := cons.inj hops
    obtain ⟨hsecond, hrest⟩ := cons.inj hrest
    obtain ⟨hop, -⟩ := cons.inj hrest
    subst hfirst hsecond hop
    have hmany := poolAndImport_waiting hrun
    intro hybridID hid
    have hfew : s.wallet.setUnusedHybridKeys.card < 5 := hid.1
    omega
  · have hlength := congrArg length hops
    simp [poolAndImport] at hlength

/-- The request is answered with a key of the pool, not with the key that was imported. -/
theorem getUnusedHybridKey_fresh_poolAndImport : ∃ s hybridID, poolAndImport.foldlM step
        (start exampleCrypto newHybridWallet ∅) = some s ∧
      s.issued request = some hybridID ∧ s.consumed ≠ ∅ ∧ hybridID ∉ s.consumed := by
  have hends : (poolAndImport.foldlM step
      (start exampleCrypto newHybridWallet ∅)).any (fun s => decide (s.consumed ≠ ∅)) =
        true := by with_unfolding_all decide
  obtain ⟨s, hrun, hconsumed⟩ := (Option.any_eq_true ..).mp hends
  obtain ⟨hybridID, -, hissued⟩ := GetUnusedHybridKey_eq_some (C := exampleCrypto) (o := {})
    (poolAndImport_waiting hrun) rfl {} fun _ => none
  have hfresh := @getUnusedHybridKey_fresh examplePassphraseCrypto newHybridWallet ∅ _ rfl
    (fun _ _ _ _ hops hbefore => poolAndImport_remembers hops hbefore) poolAndImport request [] s
    rfl hrun
  exact ⟨s, hybridID, hrun, hissued, of_decide_eq_true hconsumed, (hfresh hybridID hissued).2⟩

end Phoenixcoin.Analysis
