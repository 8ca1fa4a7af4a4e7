import Phoenixcoin.Program.HybridKeys
import Phoenixcoin.Program.WalletSync

/-!
# Ownership of outputs in a locked wallet

A wallet that is locked keeps its legacy keys, its scripts and the records of its hybrid keys at
rest. `IsMine` therefore still tells its own outputs from those of others, but for one kind of
script: of a redeem script it accepts the answer `MINE_SPENDABLE` only, which a locked wallet
gives to no hybrid script.
-/

set_option autoImplicit false

namespace Phoenixcoin.Analysis

open Lib Program isminetype Option CKeyStore WalletCoins

variable (C : KeyCrypto) (keystore : CKeyStore)

/-! ## One step through a redeem script -/

/-- The redeem script that `IsMine` goes on with. -/
def redeemScript (scriptPubKey : CScript) : Option CScript :=
  match Solver scriptPubKey with
  | some (.TX_SCRIPTHASH, vSolutions) =>
    keystore.GetCScript (uint160OfBytes (vSolutions.headD []))
  | _ => none

/-- `IsMine` for a script that it does not go on from. -/
def isMineHere (scriptPubKey : CScript) : isminetype :=
  match Solver scriptPubKey with
  | none => keystore.watchOnlyOrNo scriptPubKey
  | some (whichType, vSolutions) => keystore.isMineByKeys C scriptPubKey whichType vSolutions

theorem isMineFrom_succ (fuel : ℕ) (scriptPubKey : CScript) :
    keystore.isMineFrom C (fuel + 1) scriptPubKey = match redeemScript keystore scriptPubKey with
      | none => some (isMineHere C keystore scriptPubKey)
      | some subscript =>
        (keystore.isMineFrom C fuel subscript).map fun ret =>
          if ret = MINE_SPENDABLE then ret else keystore.watchOnlyOrNo scriptPubKey := by
  rw [redeemScript, isMineHere, isMineFrom]
  rcases hsolver : Solver scriptPubKey with _ | ⟨whichType, vSolutions⟩
  · rfl
  · cases whichType
    case TX_SCRIPTHASH =>
      cases keystore.GetCScript (uint160OfBytes (vSolutions.headD [])) <;> rfl
    all_goals rfl

variable {scriptPubKey : CScript} {fuel : ℕ} {ret : isminetype} {whichType : txnouttype}
  {vSolutions : List valtype}

variable {subscript : CScript} {keyID : CKeyID}

theorem exists_id_of_redeemScript (h : redeemScript keystore scriptPubKey = some subscript) :
    ∃ id : CScriptID, keystore.mapScripts.lookup id = some subscript := by
  unfold redeemScript at h
  split at h
  · next vSolutions _ => exact ⟨uint160OfBytes (vSolutions.headD []), h⟩
  · cases h

/-! ## The bound is large enough -/

variable {C keystore}

theorem isMineFrom_mono (h : keystore.isMineFrom C fuel scriptPubKey = some ret) :
    keystore.isMineFrom C (fuel + 1) scriptPubKey = some ret := by
  induction fuel generalizing scriptPubKey ret with
  | zero => cases h
  | succ fuel ih =>
    rw [isMineFrom_succ] at h ⊢
    cases hredeem : redeemScript keystore scriptPubKey with
    | none => rwa [hredeem] at h
    | some subscript =>
      rw [hredeem] at h
      obtain ⟨subret, hsub, hret⟩ := map_eq_some_iff.mp h
      exact map_eq_some_iff.mpr ⟨subret, ih hsub, hret⟩

theorem isMineFrom_of_le {fuel' : ℕ} (h : keystore.isMineFrom C fuel scriptPubKey = some ret)
    (hle : fuel ≤ fuel') :
    keystore.isMineFrom C fuel' scriptPubKey = some ret := by
  induction hle with
  | refl => exact h
  | step _ ih => exact isMineFrom_mono ih

/-- A script that needs exactly `fuel + 1` steps goes through `fuel` different redeem scripts. -/
theorem exists_redeemed (hnone : keystore.isMineFrom C fuel scriptPubKey = none)
    (hsome : keystore.isMineFrom C (fuel + 1) scriptPubKey ≠ none) :
    ∃ ids ⊆ keystore.mapScripts.keys, ids.card = fuel ∧ ∀ id ∈ ids, ∃ subscript,
      keystore.mapScripts.lookup id = some subscript ∧
        keystore.isMineFrom C fuel subscript ≠ none := by
  induction fuel generalizing scriptPubKey with
  | zero => exact ⟨∅, by simp⟩
  | succ fuel ih =>
    rw [isMineFrom_succ] at hnone hsome
    cases hredeem : redeemScript keystore scriptPubKey with
    | none =>
      rw [hredeem] at hnone
      cases hnone
    | some subscript =>
      rw [hredeem] at hnone hsome
      have hsub : keystore.isMineFrom C fuel subscript = none := map_eq_none_iff.mp hnone
      have hsub' : keystore.isMineFrom C (fuel + 1) subscript ≠ none := by
        intro h
        exact hsome (map_eq_none_iff.mpr h)
      obtain ⟨ids, hids, hcard, hfound⟩ := ih hsub hsub'
      obtain ⟨id, hid⟩ := exists_id_of_redeemScript keystore hredeem
      have hnew : id ∉ ids := by
        intro hmem
        obtain ⟨other, hother, hdone⟩ := hfound id hmem
        rw [hid] at hother
        cases hother
        exact hdone hsub
      refine ⟨insert id ids, ?_, ?_, ?_⟩
      · apply Finset.insert_subset _ hids
        rw [Finmap.mem_keys, Finmap.mem_iff]
        exact ⟨subscript, hid⟩
      · rw [Finset.card_insert_of_notMem hnew, hcard]
      · intro id' hid'
        rcases Finset.mem_insert.mp hid' with rfl | hold
        · exact ⟨subscript, hid, hsub'⟩
        · obtain ⟨other, hother, hdone⟩ := hfound id' hold
          refine ⟨other, hother, ?_⟩
          intro h
          obtain ⟨ret, hret⟩ := ne_none_iff_exists'.mp hdone
          rw [isMineFrom_mono hret] at h
          cases h

/-- Whenever `IsMine` comes to an end, the bound lets it. -/
theorem IsMine_of_isMineFrom (h : keystore.isMineFrom C fuel scriptPubKey = some ret) :
    keystore.IsMine C scriptPubKey = some ret := by
  have hbound : keystore.isMineFrom C (keystore.mapScripts.keys.card + 1) scriptPubKey ≠ none := by
    induction fuel with
    | zero => cases h
    | succ fuel ih =>
      cases hfuel : keystore.isMineFrom C fuel scriptPubKey with
      | some ret' =>
        apply ih
        rw [isMineFrom_mono hfuel] at h
        rw [hfuel, h]
      | none =>
        have hsome : keystore.isMineFrom C (fuel + 1) scriptPubKey ≠ none := by
          rw [h]
          simp
        obtain ⟨ids, hids, hcard, _⟩ := exists_redeemed hfuel hsome
        have hle : fuel ≤ keystore.mapScripts.keys.card := by
          rw [← hcard]
          exact Finset.card_le_card hids
        rw [isMineFrom_of_le h (by omega)]
        simp
  obtain ⟨ret', hret'⟩ := ne_none_iff_exists'.mp hbound
  have hmax := isMineFrom_of_le hret' (le_max_right fuel _)
  rw [isMineFrom_of_le h (le_max_left _ _)] at hmax
  rw [IsMine, hret', ← hmax]

/-! ## Keys in a locked wallet -/

structure UnlockedAtRest (keystore : CKeyStore) : Prop where
  crypted : keystore.fUseCrypto = true
  unlocked : keystore.vMasterKey ≠ []
  atRest : ∀ (hybridID : CHybridKeyID) (hk : CHybridKey),
    keystore.mapHybridKeys.lookup hybridID = some hk →
      ∃ disk, keystore.mapHybridKeyDisk.lookup hybridID = some disk ∧ disk.keys.secpPub = hk.secpPub

theorem isSome_firstByLegacyID {V : Type} {secpPub : V → CPubKey} {table : Table CHybridKeyID V} :
    (firstByLegacyID C secpPub keyID table).isSome ↔
      ∃ (hybridID : CHybridKeyID) (key : V),
        table.lookup hybridID = some key ∧ C.GetID (secpPub key) = keyID := by
  rw [firstByLegacyID, List.find?_isSome]
  constructor
  · rintro ⟨hybridID, _, hany⟩
    obtain ⟨key, hkey, hid⟩ := (any_eq_true _ _).mp hany
    exact ⟨hybridID, key, hkey, of_decide_eq_true hid⟩
  · rintro ⟨hybridID, key, hkey, hid⟩
    refine ⟨hybridID, ?_, ?_⟩
    · rw [Table.mem_sortedKeys, hkey]
      rfl
    · rw [hkey]
      exact decide_eq_true hid

theorem HaveHybridKeyByLegacyID_iff (keyID : CKeyID) :
    keystore.HaveHybridKeyByLegacyID C keyID ↔
      (∃ (hybridID : CHybridKeyID) (hk : CHybridKey),
        keystore.mapHybridKeys.lookup hybridID = some hk ∧ C.GetID hk.secpPub = keyID) ∨
      ∃ (hybridID : CHybridKeyID) (disk : CHybridKeyDisk),
        keystore.mapHybridKeyDisk.lookup hybridID = some disk ∧
          C.GetID disk.keys.secpPub = keyID := by
  rw [HaveHybridKeyByLegacyID, FindHybridKeyByLegacyID, isSome_or,
    Bool.or_eq_true, isSome_firstByLegacyID, isSome_firstByLegacyID]

theorem HaveHybridKeyByLegacyID_of_CanSign (h : keystore.CanSignHybridKeyByLegacyID C keyID) :
    keystore.HaveHybridKeyByLegacyID C keyID := by
  obtain ⟨hybridID, hfind, _⟩ := (any_eq_true _ _).mp h
  rw [HaveHybridKeyByLegacyID, hfind]
  rfl

theorem HaveHybridKeyByHash_of_CanSign {keyHash : uint160}
    (h : keystore.CanSignHybridKeyByHash keyHash) : keystore.HaveHybridKeyByHash keyHash := by
  obtain ⟨hk, hlookup, _⟩ := (any_eq_true _ _).mp h
  rw [HaveHybridKeyByHash, hlookup]
  rfl

namespace UnlockedAtRest

variable (hstore : UnlockedAtRest keystore)
include hstore

theorem not_locked : keystore.IsLocked = false := by
  rw [IsLocked, hstore.crypted]
  simpa using hstore.unlocked

theorem lock_IsLocked : keystore.lock.IsLocked = true := by
  rw [lock, hstore.crypted]
  rfl

theorem lock_HaveHybridKeyByLegacyID (keyID : CKeyID) :
    keystore.lock.HaveHybridKeyByLegacyID C keyID =
      keystore.HaveHybridKeyByLegacyID C keyID := by
  rw [Bool.eq_iff_iff, HaveHybridKeyByLegacyID_iff, HaveHybridKeyByLegacyID_iff]
  constructor
  · rintro (⟨hybridID, hk, hlookup, _⟩ | hdisk)
    · cases hlookup
    · exact Or.inr hdisk
  · rintro (⟨hybridID, hk, hlookup, hid⟩ | hdisk)
    · obtain ⟨disk, hdisk, hpub⟩ := hstore.atRest hybridID hk hlookup
      exact Or.inr ⟨hybridID, disk, hdisk, by rw [hpub, hid]⟩
    · exact Or.inr hdisk

theorem lock_HaveHybridKeyByHash (keyHash : uint160) :
    keystore.lock.HaveHybridKeyByHash keyHash = keystore.HaveHybridKeyByHash keyHash := by
  unfold HaveHybridKeyByHash
  cases hlookup : keystore.mapHybridKeys.lookup keyHash with
  | none =>
    rfl
  | some hk =>
    obtain ⟨disk, hdisk, _⟩ := hstore.atRest keyHash hk hlookup
    have hdisk' : keystore.lock.mapHybridKeyDisk.lookup keyHash = some disk := hdisk
    rw [hdisk']
    simp

end UnlockedAtRest

/-! ## The forms of a script -/

def canSignHybridForm (C : KeyCrypto) (keystore : CKeyStore) : txnouttype → List valtype → Bool
  | .TX_HYBRID_PUBKEY, vSolutions =>
    vSolutions.length = 2 && keystore.CanSignHybridKeyByLegacyID C (C.GetID (vSolutions.headD []))
  | .TX_HYBRID_PUBKEYHASH, vSolutions =>
    keystore.CanSignHybridKeyByHash (uint160OfBytes (vSolutions.headD []))
  | .TX_HYBRID_MULTISIG, vSolutions =>
    (hybridMultisigPubKeys vSolutions).any fun pubKeys =>
      pubKeys.all fun pubKey => keystore.CanSignHybridKeyByLegacyID C (C.GetID pubKey)
  | _, _ => false

def IsHybridType : txnouttype → Bool
  | .TX_HYBRID_PUBKEY | .TX_HYBRID_PUBKEYHASH | .TX_HYBRID_MULTISIG => true
  | _ => false

theorem hybrid_cases (h : IsHybridType whichType = true) :
    whichType = .TX_HYBRID_PUBKEY ∨ whichType = .TX_HYBRID_PUBKEYHASH ∨
      whichType = .TX_HYBRID_MULTISIG := by
  cases whichType <;> simp_all [IsHybridType]

theorem watchOnlyOrNo_ne_spendable (scriptPubKey : CScript) :
    keystore.watchOnlyOrNo scriptPubKey ≠ MINE_SPENDABLE := by
  unfold watchOnlyOrNo
  split <;> simp

theorem lock_watchOnlyOrNo (scriptPubKey : CScript) :
    keystore.lock.watchOnlyOrNo scriptPubKey = keystore.watchOnlyOrNo scriptPubKey := rfl

theorem watchOnlyOrNo_eq_no :
    keystore.watchOnlyOrNo scriptPubKey = MINE_NO ↔ scriptPubKey ∉ keystore.setWatchOnly := by
  unfold watchOnlyOrNo HaveWatchOnly
  split <;> simp_all

theorem lock_isMineByKeys_of_legacy (h : IsHybridType whichType = false) :
    keystore.lock.isMineByKeys C scriptPubKey whichType vSolutions =
      keystore.isMineByKeys C scriptPubKey whichType vSolutions := by
  cases whichType <;> first | rfl | cases h

theorem isMineByKeys_spendable (hstore : UnlockedAtRest keystore) :
    keystore.isMineByKeys C scriptPubKey whichType vSolutions = MINE_SPENDABLE ↔
      keystore.lock.isMineByKeys C scriptPubKey whichType vSolutions = MINE_SPENDABLE ∨
        canSignHybridForm C keystore whichType vSolutions := by
  have hunlocked := hstore.not_locked
  have hlocked := hstore.lock_IsLocked
  have hwatch : keystore.watchOnlyOrNo scriptPubKey ≠ MINE_SPENDABLE :=
    watchOnlyOrNo_ne_spendable scriptPubKey
  cases hhybrid : IsHybridType whichType with
  | false =>
    have hform : canSignHybridForm C keystore whichType vSolutions = false := by
      cases whichType <;> first | rfl | cases hhybrid
    rw [lock_isMineByKeys_of_legacy hhybrid, hform]
    simp
  | true =>
    rcases hybrid_cases hhybrid with rfl | rfl | rfl
    · -- TX_HYBRID_PUBKEY
      simp only [isMineByKeys, canSignHybridForm, hunlocked, hlocked, lock_watchOnlyOrNo]
      split_ifs <;> simp_all
    · -- TX_HYBRID_PUBKEYHASH
      simp only [isMineByKeys, canSignHybridForm, hunlocked, hlocked, lock_watchOnlyOrNo]
      split_ifs <;> simp_all
    · -- TX_HYBRID_MULTISIG
      simp only [isMineByKeys, canSignHybridForm, hunlocked, hlocked, lock_watchOnlyOrNo]
      cases hybridMultisigPubKeys vSolutions with
      | none => simp
      | some pubKeys =>
        dsimp only
        split_ifs <;> simp_all

theorem lock_isMineByKeys_eq_no (hstore : UnlockedAtRest keystore) :
    keystore.lock.isMineByKeys C scriptPubKey whichType vSolutions = MINE_NO ↔
      keystore.isMineByKeys C scriptPubKey whichType vSolutions = MINE_NO := by
  have hunlocked := hstore.not_locked
  have hlocked := hstore.lock_IsLocked
  cases hhybrid : IsHybridType whichType with
  | false => rw [lock_isMineByKeys_of_legacy hhybrid]
  | true =>
    rcases hybrid_cases hhybrid with rfl | rfl | rfl
    · -- TX_HYBRID_PUBKEY
      simp only [isMineByKeys, hunlocked, hlocked, lock_watchOnlyOrNo,
        hstore.lock_HaveHybridKeyByLegacyID]
      have hhave : keystore.CanSignHybridKeyByLegacyID C (C.GetID (vSolutions.headD [])) →
          keystore.HaveHybridKeyByLegacyID C (C.GetID (vSolutions.headD [])) :=
        HaveHybridKeyByLegacyID_of_CanSign
      split_ifs <;> simp_all
    · -- TX_HYBRID_PUBKEYHASH
      simp only [isMineByKeys, hunlocked, hlocked, lock_watchOnlyOrNo,
        hstore.lock_HaveHybridKeyByHash]
      have hhave : keystore.CanSignHybridKeyByHash (uint160OfBytes (vSolutions.headD [])) →
          keystore.HaveHybridKeyByHash (uint160OfBytes (vSolutions.headD [])) :=
        HaveHybridKeyByHash_of_CanSign
      split_ifs <;> simp_all
    · -- TX_HYBRID_MULTISIG
      simp only [isMineByKeys, hunlocked, hlocked, lock_watchOnlyOrNo,
        hstore.lock_HaveHybridKeyByLegacyID]
      cases hybridMultisigPubKeys vSolutions with
      | none => rfl
      | some pubKeys =>
        dsimp only
        have hhave : (pubKeys.all fun pubKey =>
              keystore.CanSignHybridKeyByLegacyID C (C.GetID pubKey)) →
            pubKeys.all fun pubKey => keystore.HaveHybridKeyByLegacyID C (C.GetID pubKey) := by
          intro hall
          rw [List.all_eq_true] at hall ⊢
          intro pubKey hmem
          exact HaveHybridKeyByLegacyID_of_CanSign (hall pubKey hmem)
        generalize (pubKeys.all fun pubKey =>
          keystore.CanSignHybridKeyByLegacyID C (C.GetID pubKey)) = fAll at hhave ⊢
        generalize (pubKeys.all fun pubKey =>
          keystore.HaveHybridKeyByLegacyID C (C.GetID pubKey)) = fAllOwned at hhave ⊢
        cases fAll <;> cases fAllOwned <;> simp_all

/-! ## Through redeem scripts -/

/-- The script is a hybrid form, or redeem scripts of the wallet lead from it to one, and the
wallet has loaded its keys. -/
inductive LeadsToHybrid (C : KeyCrypto) (keystore : CKeyStore) : CScript → Prop
  | form {scriptPubKey : CScript} {whichType : txnouttype} {vSolutions : List valtype} :
      Solver scriptPubKey = some (whichType, vSolutions) →
      canSignHybridForm C keystore whichType vSolutions → LeadsToHybrid C keystore scriptPubKey
  | redeem {scriptPubKey subscript : CScript} :
      redeemScript keystore scriptPubKey = some subscript →
      LeadsToHybrid C keystore subscript → LeadsToHybrid C keystore scriptPubKey

/-- The script is a hybrid form, or redeem scripts of the wallet lead from it to one. -/
inductive InvolvesHybrid (keystore : CKeyStore) : CScript → Prop
  | form {scriptPubKey : CScript} {whichType : txnouttype} {vSolutions : List valtype} :
      Solver scriptPubKey = some (whichType, vSolutions) → IsHybridType whichType →
      InvolvesHybrid keystore scriptPubKey
  | redeem {scriptPubKey subscript : CScript} :
      redeemScript keystore scriptPubKey = some subscript →
      InvolvesHybrid keystore subscript → InvolvesHybrid keystore scriptPubKey

theorem IsHybridType_of_canSign (h : canSignHybridForm C keystore whichType vSolutions) :
    IsHybridType whichType := by
  cases whichType <;> first | rfl | cases h

theorem redeemScript_of_hybrid (hsolver : Solver scriptPubKey = some (whichType, vSolutions))
    (hhybrid : IsHybridType whichType) : redeemScript keystore scriptPubKey = none := by
  rw [redeemScript, hsolver]
  cases whichType <;> first | rfl | cases hhybrid

theorem lock_isMineHere_eq_no (hstore : UnlockedAtRest keystore) (scriptPubKey : CScript) :
    isMineHere C keystore.lock scriptPubKey = MINE_NO ↔
      isMineHere C keystore scriptPubKey = MINE_NO := by
  unfold isMineHere
  cases Solver scriptPubKey with
  | none => rfl
  | some solved => exact lock_isMineByKeys_eq_no hstore

theorem isMineHere_spendable (hstore : UnlockedAtRest keystore) (scriptPubKey : CScript) :
    isMineHere C keystore scriptPubKey = MINE_SPENDABLE ↔
      isMineHere C keystore.lock scriptPubKey = MINE_SPENDABLE ∨
        ∃ whichType vSolutions, Solver scriptPubKey = some (whichType, vSolutions) ∧
          canSignHybridForm C keystore whichType vSolutions := by
  unfold isMineHere
  cases Solver scriptPubKey with
  | none =>
    have hwatch : keystore.watchOnlyOrNo scriptPubKey ≠ MINE_SPENDABLE :=
      watchOnlyOrNo_ne_spendable scriptPubKey
    simp [lock_watchOnlyOrNo, hwatch]
  | some solved =>
    obtain ⟨whichType, vSolutions⟩ := solved
    rw [isMineByKeys_spendable hstore]
    simp

/-- A locked wallet spends no hybrid form. -/
theorem lock_isMineHere_of_canSign (hstore : UnlockedAtRest keystore)
    (hsolver : Solver scriptPubKey = some (whichType, vSolutions))
    (hsign : canSignHybridForm C keystore whichType vSolutions) :
    isMineHere C keystore.lock scriptPubKey ≠ MINE_SPENDABLE := by
  have hwatch : keystore.lock.watchOnlyOrNo scriptPubKey ≠ MINE_SPENDABLE :=
    watchOnlyOrNo_ne_spendable scriptPubKey
  have hlocked := hstore.lock_IsLocked
  rw [isMineHere, hsolver]
  rcases hybrid_cases (IsHybridType_of_canSign hsign) with rfl | rfl | rfl <;>
    simp [isMineByKeys]
  · split_ifs <;> simp_all
  · split_ifs <;> simp_all
  · cases hybridMultisigPubKeys vSolutions with
    | none => simp
    | some pubKeys =>
      dsimp only
      split_ifs <;> simp_all

/-- The lock does not change whether `IsMine` comes to an end. -/
theorem lock_isMineFrom_eq_none (fuel : ℕ) (scriptPubKey : CScript) :
    keystore.lock.isMineFrom C fuel scriptPubKey = none ↔
      keystore.isMineFrom C fuel scriptPubKey = none := by
  induction fuel generalizing scriptPubKey with
  | zero => rfl
  | succ fuel ih =>
    have hredeem : redeemScript keystore.lock scriptPubKey = redeemScript keystore scriptPubKey :=
      rfl
    rw [isMineFrom_succ, isMineFrom_succ, hredeem]
    cases redeemScript keystore scriptPubKey with
    | none => simp
    | some subscript => simpa using ih subscript

/-- An output that redeems a script is spendable only if the script is. -/
theorem isMineFrom_redeemed (hredeem : redeemScript keystore scriptPubKey = some subscript)
    (h : keystore.isMineFrom C (fuel + 1) scriptPubKey = some MINE_SPENDABLE) :
    keystore.isMineFrom C fuel subscript = some MINE_SPENDABLE := by
  rw [isMineFrom_succ, hredeem] at h
  obtain ⟨ret, hret, hspend⟩ := map_eq_some_iff.mp h
  have hret' : ret = MINE_SPENDABLE := by
    by_contra hne
    rw [if_neg hne] at hspend
    exact watchOnlyOrNo_ne_spendable scriptPubKey hspend
  rw [hret, hret']

theorem isMineFrom_spendable (hstore : UnlockedAtRest keystore)
    (h : keystore.isMineFrom C fuel scriptPubKey = some MINE_SPENDABLE) :
    keystore.lock.isMineFrom C fuel scriptPubKey = some MINE_SPENDABLE ∨
      LeadsToHybrid C keystore scriptPubKey := by
  induction fuel generalizing scriptPubKey with
  | zero => cases h
  | succ fuel ih =>
    have hlock : redeemScript keystore.lock scriptPubKey = redeemScript keystore scriptPubKey :=
      rfl
    rw [isMineFrom_succ, hlock]
    cases hredeem : redeemScript keystore scriptPubKey with
    | none =>
      rw [isMineFrom_succ, hredeem] at h
      have hhere := (isMineHere_spendable hstore scriptPubKey).mp (some.inj h)
      rcases hhere with hhere | ⟨whichType, vSolutions, hsolver, hsign⟩
      · left
        rw [hhere]
      · exact Or.inr (LeadsToHybrid.form hsolver hsign)
    | some subscript =>
      rcases ih (isMineFrom_redeemed hredeem h) with hsub | hhybrid
      · left
        dsimp only
        rw [hsub]
        rfl
      · exact Or.inr (LeadsToHybrid.redeem hredeem hhybrid)

theorem isMineFrom_of_lock_spendable (hstore : UnlockedAtRest keystore)
    (h : keystore.lock.isMineFrom C fuel scriptPubKey = some MINE_SPENDABLE) :
    keystore.isMineFrom C fuel scriptPubKey = some MINE_SPENDABLE := by
  induction fuel generalizing scriptPubKey with
  | zero => cases h
  | succ fuel ih =>
    have hlock : redeemScript keystore.lock scriptPubKey = redeemScript keystore scriptPubKey :=
      rfl
    rw [isMineFrom_succ]
    cases hredeem : redeemScript keystore scriptPubKey with
    | none =>
      rw [isMineFrom_succ, hlock, hredeem] at h
      have hhere := (isMineHere_spendable hstore scriptPubKey).mpr (Or.inl (some.inj h))
      rw [hhere]
    | some subscript =>
      dsimp only
      rw [ih (isMineFrom_redeemed (hlock.trans hredeem) h)]
      rfl

namespace LeadsToHybrid

section

variable (hstore : UnlockedAtRest keystore) (h : LeadsToHybrid C keystore scriptPubKey)
include hstore h

theorem exists_spendable :
    ∃ fuel, keystore.isMineFrom C fuel scriptPubKey = some MINE_SPENDABLE := by
  induction h with
  | @form scriptPubKey whichType vSolutions hsolver hsign =>
    have hhere := (isMineHere_spendable hstore scriptPubKey).mpr
      (Or.inr ⟨whichType, vSolutions, hsolver, hsign⟩)
    refine ⟨1, ?_⟩
    rw [isMineFrom_succ, redeemScript_of_hybrid hsolver (IsHybridType_of_canSign hsign)]
    rw [hhere]
  | redeem hredeem _ ih =>
    obtain ⟨fuel, hfuel⟩ := ih
    refine ⟨fuel + 1, ?_⟩
    rw [isMineFrom_succ, hredeem]
    dsimp only
    rw [hfuel]
    rfl

/-- A locked wallet cannot. -/
theorem lock_ne_spendable (fuel : ℕ) :
    keystore.lock.isMineFrom C fuel scriptPubKey ≠ some MINE_SPENDABLE := by
  induction h generalizing fuel with
  | @form scriptPubKey whichType vSolutions hsolver hsign =>
    have hlock : redeemScript keystore.lock scriptPubKey = none :=
      redeemScript_of_hybrid hsolver (IsHybridType_of_canSign hsign)
    cases fuel with
    | zero => exact some_ne_none _ ∘ Eq.symm
    | succ fuel =>
      rw [isMineFrom_succ, hlock]
      intro heq
      exact lock_isMineHere_of_canSign hstore hsolver hsign (some.inj heq)
  | @redeem scriptPubKey subscript hredeem _ ih =>
    have hlock : redeemScript keystore.lock scriptPubKey = some subscript := hredeem
    cases fuel with
    | zero => exact some_ne_none _ ∘ Eq.symm
    | succ fuel =>
      exact fun heq => ih fuel (isMineFrom_redeemed hlock heq)

end

end LeadsToHybrid

theorem lock_isMineFrom_of_legacy (h : ¬ InvolvesHybrid keystore scriptPubKey) :
    keystore.lock.isMineFrom C fuel scriptPubKey = keystore.isMineFrom C fuel scriptPubKey := by
  induction fuel generalizing scriptPubKey with
  | zero => rfl
  | succ fuel ih =>
    have hlock : redeemScript keystore.lock scriptPubKey = redeemScript keystore scriptPubKey :=
      rfl
    rw [isMineFrom_succ, isMineFrom_succ, hlock]
    cases hredeem : redeemScript keystore scriptPubKey with
    | some subscript =>
      have hsub : ¬ InvolvesHybrid keystore subscript :=
        fun hsub => h (InvolvesHybrid.redeem hredeem hsub)
      dsimp only
      rw [ih hsub]
      rfl
    | none =>
      unfold isMineHere
      rcases hsolver : Solver scriptPubKey with _ | ⟨whichType, vSolutions⟩
      · rfl
      · have hlegacy : IsHybridType whichType = false := by
          by_contra hne
          exact h (InvolvesHybrid.form hsolver (Bool.eq_true_of_not_eq_false hne))
        dsimp only
        rw [lock_isMineByKeys_of_legacy hlegacy]

/-! ## Recognised outputs -/

def RecognisedLocked (C : KeyCrypto) (keystore : CKeyStore) (scriptPubKey : CScript) : Prop :=
  scriptPubKey ∈ keystore.setWatchOnly ∨ ∀ subscript,
    redeemScript keystore scriptPubKey = some subscript → ¬ LeadsToHybrid C keystore subscript

/-- The answer through a redeem script. -/
theorem isMineFrom_redeem_eq_no (hredeem : redeemScript keystore scriptPubKey = some subscript) :
    keystore.isMineFrom C (fuel + 1) scriptPubKey = some MINE_NO ↔
      keystore.isMineFrom C fuel subscript ≠ none ∧
        keystore.isMineFrom C fuel subscript ≠ some MINE_SPENDABLE ∧
        scriptPubKey ∉ keystore.setWatchOnly := by
  rw [isMineFrom_succ, hredeem]
  dsimp only
  cases keystore.isMineFrom C fuel subscript with
  | none => simp
  | some ret =>
    by_cases hret : ret = MINE_SPENDABLE
    · simp [hret]
    · simp [hret, watchOnlyOrNo_eq_no]

theorem lock_IsMine_eq_no_iff (hstore : UnlockedAtRest keystore) (scriptPubKey : CScript) :
    (keystore.lock.IsMine C scriptPubKey = some MINE_NO ↔
      keystore.IsMine C scriptPubKey = some MINE_NO) ↔
    RecognisedLocked C keystore scriptPubKey := by
  have hlock : redeemScript keystore.lock scriptPubKey = redeemScript keystore scriptPubKey := rfl
  cases hredeem : redeemScript keystore scriptPubKey with
  | none =>
    have hhere := lock_isMineHere_eq_no (C := C) hstore scriptPubKey
    unfold IsMine RecognisedLocked
    rw [isMineFrom_succ, isMineFrom_succ, hlock, hredeem]
    simp [hhere]
  | some subscript =>
    rw [hredeem] at hlock
    have hends : keystore.lock.isMineFrom C keystore.mapScripts.keys.card subscript = none ↔
        keystore.isMineFrom C keystore.mapScripts.keys.card subscript = none :=
      lock_isMineFrom_eq_none _ subscript
    have hleft : keystore.lock.IsMine C scriptPubKey = some MINE_NO ↔ _ :=
      isMineFrom_redeem_eq_no hlock
    have hright : keystore.IsMine C scriptPubKey = some MINE_NO ↔ _ :=
      isMineFrom_redeem_eq_no hredeem
    rw [hleft, hright]
    have hmaps : keystore.lock.mapScripts = keystore.mapScripts := rfl
    have hwatch : keystore.lock.setWatchOnly = keystore.setWatchOnly := rfl
    rw [hmaps, hwatch]
    rw [RecognisedLocked, hredeem]
    by_cases hhybrid : LeadsToHybrid C keystore subscript
    · -- the unlocked wallet spends the redeem script, the locked one does not
      obtain ⟨fuel, hfuel⟩ := hhybrid.exists_spendable hstore
      have hspend : keystore.IsMine C scriptPubKey ≠ none := by
        have hsome : keystore.isMineFrom C (fuel + 1) scriptPubKey = some MINE_SPENDABLE := by
          rw [isMineFrom_succ, hredeem]
          dsimp only
          rw [hfuel]
          rfl
        rw [IsMine_of_isMineFrom hsome]
        simp
      have hsub : keystore.isMineFrom C keystore.mapScripts.keys.card subscript =
          some MINE_SPENDABLE := by
        rw [IsMine, isMineFrom_succ, hredeem] at hspend
        have hne : keystore.isMineFrom C keystore.mapScripts.keys.card subscript ≠ none := by
          intro hnone
          exact hspend (map_eq_none_iff.mpr hnone)
        obtain ⟨ret, hret⟩ := ne_none_iff_exists'.mp hne
        have hmax := isMineFrom_of_le hret (le_max_right fuel _)
        rw [isMineFrom_of_le hfuel (le_max_left _ _)] at hmax
        rw [hret, ← hmax]
      have hnot := hhybrid.lock_ne_spendable hstore keystore.mapScripts.keys.card
      have hne : keystore.lock.isMineFrom C keystore.mapScripts.keys.card subscript ≠ none := by
        rw [ne_eq, hends, hsub]
        simp
      simp [hsub, hnot, hne, hhybrid]
    · have hsame : keystore.lock.isMineFrom C keystore.mapScripts.keys.card subscript =
            some MINE_SPENDABLE ↔
          keystore.isMineFrom C keystore.mapScripts.keys.card subscript = some MINE_SPENDABLE := by
        constructor
        · exact isMineFrom_of_lock_spendable hstore
        · intro h
          exact (isMineFrom_spendable hstore h).resolve_right hhybrid
      simp only [ne_eq, hends, hsame]
      simp [hhybrid]

/-! ## What the wallet records -/

section Recording

variable (E : WalletEnv) {isMine isMine' : CTxOut → Bool}

/-- The outputs of wallet transactions on which two notions of ownership agree. -/
def AgreeOnWallet (isMine isMine' : CTxOut → Bool) (mapWallet : CoinTable) : Prop :=
  ∀ (hash : uint256) (wtx : WalletCoins), mapWallet.lookup hash = some wtx →
    ∀ txout ∈ wtx.vout, isMine txout = isMine' txout

variable {mapWallet : CoinTable} {wtxIn : WalletCoins}

theorem getDebitIn_congr (hagree : AgreeOnWallet isMine isMine' mapWallet) (txin : CTxIn) :
    getDebitIn { E with isMine := isMine } mapWallet txin =
      getDebitIn { E with isMine := isMine' } mapWallet txin := by
  unfold getDebitIn
  cases hprev : mapWallet.lookup txin.prevout.hash with
  | none => rfl
  | some prev =>
    dsimp only
    cases hout : prev.vout[txin.prevout.n]? with
    | none => rfl
    | some txout =>
      simp [hagree _ prev hprev txout (List.mem_of_getElem? hout)]

theorem collectWalletSpentCoins_congr (hagree : AgreeOnWallet isMine isMine' mapWallet)
    (tx : CTransaction) :
    collectWalletSpentCoins { E with isMine := isMine } mapWallet tx =
      collectWalletSpentCoins { E with isMine := isMine' } mapWallet tx := by
  apply List.filterMap_congr
  intro txin _
  unfold spentCoin
  cases hprev : mapWallet.lookup txin.prevout.hash with
  | none => rfl
  | some prev =>
    dsimp only
    cases hout : prev.vout[txin.prevout.n]? with
    | none => rfl
    | some txout =>
      simp [hagree _ prev hprev txout (List.mem_of_getElem? hout)]

variable {w : SyncedWallet}

theorem agreeOnWallet_prepare {hash : uint256} (hagree : AgreeOnWallet isMine isMine' w.mapWallet)
    (hin : ∀ txout ∈ wtxIn.vout, isMine txout = isMine' txout) :
    AgreeOnWallet isMine isMine' (prepareAddToWallet E hash wtxIn w).1.mapWallet := by
  intro hash' wtx hlookup txout hmem
  unfold prepareAddToWallet at hlookup
  cases hprev : w.mapWallet.lookup hash with
  | none =>
    rw [hprev] at hlookup
    rw [Table.lookup_insert_ite] at hlookup
    split at hlookup
    · cases hlookup
      exact hin txout hmem
    · exact hagree hash' wtx hlookup txout hmem
  | some prev =>
    rw [hprev] at hlookup
    rw [Table.lookup_insert_ite] at hlookup
    split at hlookup
    · cases hlookup
      exact hagree hash prev hprev txout hmem
    · exact hagree hash' wtx hlookup txout hmem

section

variable (o : AddToWalletOutcome) (hagree : AgreeOnWallet isMine isMine' w.mapWallet)
include o hagree

theorem addToWallet_congr (hin : ∀ txout ∈ wtxIn.vout, isMine txout = isMine' txout) :
    addToWallet { E with isMine := isMine } o wtxIn w =
      addToWallet { E with isMine := isMine' } o wtxIn w := by
  have hprepare (f : CTxOut → Bool) (hash : uint256) :
      prepareAddToWallet { E with isMine := f } hash wtxIn w = prepareAddToWallet E hash wtxIn w :=
    rfl
  unfold addToWallet
  simp only [hprepare]
  rw [collectWalletSpentCoins_congr E (agreeOnWallet_prepare E hagree hin)]

theorem addToWalletIfInvolvingMe_congr {block : CBlock} {tx : CTransaction}
    (hin : ∀ txout ∈ tx.vout, isMine txout = isMine' txout) :
    addToWalletIfInvolvingMe { E with isMine := isMine } o block tx w =
      addToWalletIfInvolvingMe { E with isMine := isMine' } o block tx w := by
  have hmine : tx.vout.any isMine = tx.vout.any isMine' := by
    rw [Bool.eq_iff_iff, List.any_eq_true, List.any_eq_true]
    constructor
    · rintro ⟨txout, hmem, h⟩
      exact ⟨txout, hmem, by rw [← hin txout hmem, h]⟩
    · rintro ⟨txout, hmem, h⟩
      exact ⟨txout, hmem, by rw [hin txout hmem, h]⟩
  have hfrom : isFromMe { E with isMine := isMine } w.mapWallet tx =
      isFromMe { E with isMine := isMine' } w.mapWallet tx := by
    unfold isFromMe
    rw [List.map_congr_left fun txin _ => getDebitIn_congr E hagree txin]
  have hupdate : walletUpdateSpent { E with isMine := isMine } tx w =
      walletUpdateSpent { E with isMine := isMine' } tx w := by
    unfold walletUpdateSpent
    rw [collectWalletSpentCoins_congr E hagree]
  have hbranch (f : CTxOut → Bool) :
      (ofTransaction tx).setMerkleBranch { E with isMine := f } block =
        (ofTransaction tx).setMerkleBranch E block := rfl
  have hvout : ((ofTransaction tx).setMerkleBranch E block).vout = tx.vout := by
    unfold setMerkleBranch
    split <;> rfl
  have hadd : addToWallet { E with isMine := isMine } o
        ((ofTransaction tx).setMerkleBranch E block) w =
      addToWallet { E with isMine := isMine' } o
        ((ofTransaction tx).setMerkleBranch E block) w := by
    apply addToWallet_congr E o hagree
    rw [hvout]
    exact hin
  unfold addToWalletIfInvolvingMe
  rw [hmine, hfrom, hupdate, hbranch isMine, hbranch isMine', hadd]

end

end Recording

def ownsOutput (C : KeyCrypto) (keystore : CKeyStore) (txout : CTxOut) : Bool :=
  keystore.IsMine C txout.scriptPubKey ≠ some MINE_NO

/-- A wallet recognises a script in both states alike exactly if the script is recognised in the
locked state, and it records a transaction in both states alike if the outputs of the transaction
and of the wallet are. -/
theorem lock_ownership (C : KeyCrypto) (keystore : CKeyStore) (hstore : UnlockedAtRest keystore) :
    (∀ scriptPubKey : CScript, ((keystore.lock.IsMine C scriptPubKey = some MINE_NO ↔
          keystore.IsMine C scriptPubKey = some MINE_NO) ∧ (¬ InvolvesHybrid keystore scriptPubKey →
          keystore.lock.IsMine C scriptPubKey = keystore.IsMine C scriptPubKey)) ↔
        RecognisedLocked C keystore scriptPubKey) ∧
    ∀ (E : WalletEnv) (o : AddToWalletOutcome) (block : CBlock) (tx : CTransaction)
      (w : SyncedWallet),
      (∀ txout ∈ tx.vout, RecognisedLocked C keystore txout.scriptPubKey) →
      (∀ (hash : uint256) (wtx : WalletCoins), w.mapWallet.lookup hash = some wtx →
        ∀ txout ∈ wtx.vout, RecognisedLocked C keystore txout.scriptPubKey) →
      addToWalletIfInvolvingMe { E with isMine := ownsOutput C keystore.lock } o block tx w =
          addToWalletIfInvolvingMe { E with isMine := ownsOutput C keystore } o block tx w ∧
        collectWalletSpentCoins { E with isMine := ownsOutput C keystore.lock } w.mapWallet tx =
          collectWalletSpentCoins { E with isMine := ownsOutput C keystore } w.mapWallet tx := by
  constructor
  · intro scriptPubKey
    rw [lock_IsMine_eq_no_iff hstore]
    constructor
    · exact And.left
    · intro h
      refine ⟨h, ?_⟩
      intro hlegacy
      exact lock_isMineFrom_of_legacy hlegacy
  · intro E o block tx w htx hwallet
    have howns (txout : CTxOut) (h : RecognisedLocked C keystore txout.scriptPubKey) :
        ownsOutput C keystore.lock txout = ownsOutput C keystore txout := by
      have hiff := (lock_IsMine_eq_no_iff hstore txout.scriptPubKey).mpr h
      simp [ownsOutput, hiff]
    have hagree : AgreeOnWallet (ownsOutput C keystore.lock) (ownsOutput C keystore)
        w.mapWallet := by
      intro hash wtx hlookup txout hmem
      exact howns txout (hwallet hash wtx hlookup txout hmem)
    constructor
    · apply addToWalletIfInvolvingMe_congr E o hagree
      intro txout hmem
      exact howns txout (htx txout hmem)
    · exact collectWalletSpentCoins_congr E hagree tx

/-! ## A hybrid key behind a redeem script -/

def redeemingKey : CHybridKey where
  secpPriv := List.replicate 32 1
  secpPub := 2 :: List.replicate 32 1
  mldsaAlg := MLDSA_ALG
  mldsaSigner := some [9]
  nCreateTime := 1

def redeemingID : CHybridKeyID := (redeemingKey.GetHybridID exampleCrypto).getD 0

/-- `OP_DUPHYBRID OP_HASHHYBRID160 <hash> OP_EQUALVERIFY OP_CHECKHYBRIDSIG` for that key. -/
def hybridRedeemScript : CScript :=
  [OP_DUPHYBRID, OP_HASHHYBRID160] ++ pushData (toLittleEndian 20 redeemingID) ++
    [OP_EQUALVERIFY, OP_CHECKHYBRIDSIG]

def hybridRedeemHashScript : CScript :=
  [OP_HASH160] ++ pushData (toLittleEndian 20 (exampleCrypto.Hash160 hybridRedeemScript)) ++
    [OP_EQUAL]

/-- An unlocked wallet with that key, its record and the redeem script. -/
def redeemingStore : CKeyStore where
  fUseCrypto := true
  vMasterKey := List.replicate 32 7
  mapKeys := ∅
  mapCryptedKeys := ∅
  mapScripts := Finmap.singleton (exampleCrypto.Hash160 hybridRedeemScript) hybridRedeemScript
  setWatchOnly := ∅
  mapHybridKeys := Finmap.singleton redeemingID redeemingKey
  mapHybridKeyDisk :=
    (CHybridKeyDiskRecord.FromMemoryEncrypted exampleCrypto redeemingKey
      (List.replicate 32 7)).elim ∅ fun disk => Finmap.singleton redeemingID disk

theorem redeemingStore_atRest : UnlockedAtRest redeemingStore where
  crypted := rfl
  unlocked := by decide
  atRest hybridID hk h := by
    have hmem : hybridID ∈ redeemingStore.mapHybridKeys := Finmap.mem_of_lookup_eq_some h
    have hid : hybridID = redeemingID := (Finmap.mem_singleton hybridID redeemingID _).mp hmem
    rw [hid] at h ⊢
    have hk' : hk = redeemingKey := by
      rw [show redeemingStore.mapHybridKeys =
        Finmap.singleton redeemingID redeemingKey from rfl] at h
      exact (some.inj h).symm
    rw [hk']
    refine ⟨_, Finmap.lookup_singleton_eq, rfl⟩

/-- The unlocked wallet can spend the script, and the locked one does not know it. -/
theorem hybrid_behind_redeemScript :
    UnlockedAtRest redeemingStore ∧
      redeemingStore.IsMine exampleCrypto hybridRedeemHashScript = some MINE_SPENDABLE ∧
      redeemingStore.lock.IsMine exampleCrypto hybridRedeemHashScript = some MINE_NO := by
  refine ⟨redeemingStore_atRest, ?_, ?_⟩ <;> decide

/-- The bare form of the same key is recognised in both states. -/
theorem lock_ownership_bare :
    redeemScript redeemingStore hybridRedeemScript = none ∧
      (redeemingStore.lock.IsMine exampleCrypto hybridRedeemScript = some MINE_NO ↔
        redeemingStore.IsMine exampleCrypto hybridRedeemScript = some MINE_NO) := by
  have hredeem : redeemScript redeemingStore hybridRedeemScript = none := by decide
  have hrecognised : RecognisedLocked exampleCrypto redeemingStore hybridRedeemScript := by
    right
    intro subscript h
    cases h
  exact ⟨hredeem, (((lock_ownership exampleCrypto redeemingStore redeemingStore_atRest).1
    hybridRedeemScript).mpr hrecognised).1⟩

end Phoenixcoin.Analysis
