import Phoenixcoin.Analysis.PairedWrites
import Phoenixcoin.Program.WalletReload

/-!
# A new key and its record

The record of a key that an operation takes into the wallet is loaded back as that key, unless the
key was made after the times that 32 bits hold: the record has an `int32_t` for the `int64_t` of
the key.
-/

set_option autoImplicit false

namespace Phoenixcoin.Analysis

open Lib Program

variable {C : KeyCrypto} {o : WalletDbOutcome} {w w' : HybridWallet} {hybridID : CHybridKeyID}
  {hk : CHybridKey} {disk : CHybridKeyDisk}

/-! ## New keys -/

theorem lookup_registerPool {fUnused : Bool} {staged : List StagedHybridKey}
    (h : (staged.foldl (HybridWallet.registerPoolKey C fUnused) w).mapHybridKeys.lookup hybridID =
      some hk) :
    w.mapHybridKeys.lookup hybridID = some hk ∨
      ∃ entry ∈ staged, hybridID = entry.hybridID ∧ hk = entry.key := by
  induction staged generalizing w with
  | nil => exact Or.inl h
  | cons entry staged ih =>
    rcases ih h with hbefore | ⟨other, hmem, hother⟩
    · rw [registerPoolKey_mapHybridKeys] at hbefore
      rcases lookup_emplace_eq_some hbefore with hold | hsame
      · exact Or.inl hold
      · exact Or.inr ⟨entry, List.mem_cons_self, hsame⟩
    · exact Or.inr ⟨other, List.mem_cons_of_mem _ hmem, hother⟩

theorem storableKey_of_makePool {fAlwaysPersist fUnused : Bool} {fresh : List (Option (FreshKey C))}
    (h : w.makePool C o fAlwaysPersist fUnused fresh = some w')
    (hnew : w.mapHybridKeys.lookup hybridID = none)
    (hkey : w'.mapHybridKeys.lookup hybridID = some hk) : StorableKey C hybridID hk := by
  obtain ⟨staged, db, hstaged, -, rfl⟩ := makePool_eq_some h
  rcases lookup_registerPool hkey with hold | ⟨entry, hmem, rfl, rfl⟩
  · rw [hnew] at hold
    cases hold
  · obtain ⟨_, -, hjoin, -⟩ := exists_fresh_of_mem hstaged hmem
    exact hjoin.storable

theorem eq_of_addHybridKey {id : CHybridKeyID} {added : CHybridKey} {record : Option CHybridKeyDisk}
    (hnew : w.mapHybridKeys.lookup hybridID = none)
    (hkey : (w.addHybridKey id added record).mapHybridKeys.lookup hybridID = some hk) :
    hybridID = id ∧ hk = added := by
  rcases lookup_emplace_eq_some hkey with hold | hsame
  · rw [hnew] at hold
    cases hold
  · exact hsame

/-- Every key that an operation takes into the wallet can be stored. -/
theorem storableKey_of_run {op : HybridKeyOp C} {ok : Bool} (hrun : op.run w = (ok, w'))
    (hnew : w.mapHybridKeys.lookup hybridID = none)
    (hkey : w'.mapHybridKeys.lookup hybridID = some hk) : StorableKey C hybridID hk := by
  rcases op.run_cases hrun with rfl | ⟨-, hmakes⟩
  · rw [hnew] at hkey
    cases hkey
  cases op with
  | newHybridKeyPool o fresh => exact storableKey_of_makePool hmakes.2 hnew hkey
  | ensureHybridKeyPool o nTarget fresh => exact storableKey_of_makePool hmakes.2 hnew hkey
  | ensureHybridKey o pkey nTime keyID =>
    obtain ⟨key, p, id, record, db, -, hensured, rfl⟩ := hmakes
    obtain ⟨rfl, rfl⟩ := eq_of_addHybridKey (w := { w with db := db }) hnew hkey
    exact storableKey_hybridKeyOf (keyPair_of_GetKey hensured.found) p.property hensured.valid
      hensured.derives
  | importHybridKey o r =>
    obtain ⟨id, imported, ecdsa, cryptedSecret, record, db, himported, rfl⟩ := hmakes
    obtain ⟨rfl, rfl⟩ : hybridID = id ∧ hk = imported := by
      apply eq_of_addHybridKey ?_ hkey
      split_ifs
      · rw [addLegacyKey_mapHybridKeys]
        exact hnew
      · exact hnew
    obtain ⟨_, _, key, pkey, -, hset, hpkey, rfl⟩ := himported.made
    exact storableKey_hybridKeyOf (keyPair_of_SetSecret hset).1 hpkey himported.valid
      himported.derives

/-! ## Loading -/

theorem toInt32_eq_iff {n : ℤ} (hpos : 0 < n) : toInt32 n = n ↔ n < 2 ^ 31 := by
  constructor
  · have hlt : toInt32 n < (2 ^ 32 + 1) / 2 := Int.bmod_lt (by decide)
    omega
  · exact toInt32_of_lt hpos

theorem LoadHybridKey_eq {u : HybridWallet} (hkey : StorableKey C hybridID hk)
    (hrecord : ProperRecord C w hk disk) (hcrypt : u.fUseCrypto = w.fUseCrypto)
    (hmaster : u.vMasterKey = w.vMasterKey) :
    u.LoadHybridKey C disk =
      if (atRest hk).Validate C then
        { u with mapHybridKeys := emplace hybridID (atRest hk) u.mapHybridKeys }
      else u := by
  have hencrypted : disk.IsEncrypted = u.IsCrypted := by
    rw [hrecord.encrypted, CKeyStore.IsCrypted, CKeyStore.IsCrypted, hcrypt]
  have haccepted : ¬ ((disk.nVersion ≠ HYBRIDKEY_DISK_VERSION ∧
      disk.nVersion ≠ HYBRIDKEY_DISK_VERSION_ENCRYPTED) ∨
      (disk.IsEncrypted = true ∧ ¬ u.IsCrypted = true) ∨ ¬ disk.CheckChecksum C = true ∨
      (disk.IsEncrypted = true ∧ disk.keys.vchCryptedPrivate = []) ∨
      (¬ disk.IsEncrypted = true ∧ disk.keys.mldsaPrivKey = [])) := by
    rintro (⟨hplain, hsealed⟩ | ⟨hyes, hno⟩ | hsum | ⟨hyes, hnil⟩ | ⟨hno, hnil⟩)
    · rcases hrecord.version with hversion | hversion
      · exact hplain hversion
      · exact hsealed hversion
    · rw [hencrypted] at hyes
      exact hno hyes
    · exact hsum hrecord.checksum
    · exact (hrecord.crypted hyes).1 hnil
    · exact (hrecord.plain (by simpa using hno)).2 hnil
  rw [HybridWallet.LoadHybridKey, if_neg haccepted, hmaster, hrecord.materialize_eq hkey]
  by_cases hvalid : (atRest hk).Validate C = true
  · rw [if_pos hvalid, if_pos hvalid]
    dsimp only
    rw [GetHybridID_atRest, hkey.derives]
  · rw [if_neg hvalid, if_neg hvalid]

/-- The record of a key that an operation takes into the wallet is loaded back as that key, by any
wallet with the same master key that does not have it, if and only if the key was made before 2^31
seconds had passed. -/
theorem loads_back_iff (hC : NonEmptyKeys C) {op : HybridKeyOp C} {ok : Bool}
    (hrun : op.run w = (ok, w')) (hnew : w.mapHybridKeys.lookup hybridID = none)
    (hkey : w'.mapHybridKeys.lookup hybridID = some hk)
    (hdisk : w.MakeHybridKeyDisk C hk = some disk) :
    (hk.GetHybridID C = some hybridID ∧
      ∀ u : HybridWallet, u.fUseCrypto = w.fUseCrypto → u.vMasterKey = w.vMasterKey →
        u.mapHybridKeys.lookup hybridID = none →
        (u.LoadHybridKey C disk).mapHybridKeys.lookup hybridID = some hk) ↔
      hk.nCreateTime < 2 ^ 31 := by
  have hstorable := storableKey_of_run hrun hnew hkey
  have hrecord := properRecord_of_MakeHybridKeyDisk hC hstorable hdisk
  have hpos : 0 < hk.nCreateTime := (Validate_iff.mp hstorable.valid).2.2.2.2.2
  rw [← toInt32_eq_iff hpos]
  constructor
  · rintro ⟨-, hloads⟩
    have hloaded := hloads w rfl rfl hnew
    rw [LoadHybridKey_eq hstorable hrecord rfl rfl] at hloaded
    split at hloaded
    · rcases lookup_emplace_eq_some hloaded with hold | ⟨-, hsame⟩
      · rw [hnew] at hold
        cases hold
      · exact (congrArg CHybridKey.nCreateTime hsame).symm
    · rw [hnew] at hloaded
      cases hloaded
  · intro htime
    have hatRest : atRest hk = hk := by
      rw [atRest, htime]
    refine ⟨hstorable.derives, ?_⟩
    intro u hcrypt hmaster hfree
    rw [LoadHybridKey_eq hstorable hrecord hcrypt hmaster, hatRest, if_pos hstorable.valid]
    rw [emplace, hfree, if_neg (by simp), Finmap.lookup_insert]

namespace KeyRoundTripExample

def importedKey (nCreateTime : ℤ) : CHybridKey :=
  HybridWallet.hybridKeyOf ⟨List.replicate 32 1, 2 :: List.replicate 32 1, true⟩ [9] nCreateTime

def importedID : CHybridKeyID := ((importedKey 1).GetHybridID exampleCrypto).getD 0

/-- A key of the year 2038 is imported into a new wallet, and its record is not loaded. -/
theorem import_of_2038 :
    (importInto newHybridWallet (2 ^ 31)).1 = true ∧
      (importInto newHybridWallet (2 ^ 31)).2.mapHybridKeys.lookup importedID =
        some (importedKey (2 ^ 31)) ∧
      ((newHybridWallet.MakeHybridKeyDisk exampleCrypto (importedKey (2 ^ 31))).map fun disk =>
        (newHybridWallet.LoadHybridKey exampleCrypto disk).mapHybridKeys.lookup importedID) =
        some none := by
  with_unfolding_all decide

theorem loads_back_import :
    ∃ disk, newHybridWallet.MakeHybridKeyDisk exampleCrypto (importedKey 1) = some disk ∧
      (newHybridWallet.LoadHybridKey exampleCrypto disk).mapHybridKeys.lookup importedID =
        some (importedKey 1) := by
  obtain ⟨disk, hdisk⟩ : ∃ disk,
      newHybridWallet.MakeHybridKeyDisk exampleCrypto (importedKey 1) = some disk :=
    Option.isSome_iff_exists.mp (by decide)
  have hrun : (HybridKeyOp.importHybridKey {} (importRequest 1) :
      HybridKeyOp exampleCrypto).run newHybridWallet =
        ((importInto newHybridWallet 1).1, (importInto newHybridWallet 1).2) := rfl
  have hloads := (loads_back_iff nonEmptyKeys_exampleCrypto hrun rfl
    (show (importInto newHybridWallet 1).2.mapHybridKeys.lookup importedID =
      some (importedKey 1) by with_unfolding_all decide) hdisk).mpr (by decide)
  exact ⟨disk, hdisk, hloads.2 newHybridWallet rfl rfl rfl⟩

end KeyRoundTripExample

end Phoenixcoin.Analysis
