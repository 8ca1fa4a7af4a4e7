import Phoenixcoin.Analysis.UnlockRestores
import Phoenixcoin.Program.HybridUsage

/-!
# Fresh hybrid keys

Runs of a wallet whose unused hybrid keys are handed out. A key that was handed out is in the set
of used keys, in memory and on disk, and never comes back. A key that was imported, made for an
address or paid is not put into that set, so that an unlock or a start may take it for an unused
one; a run in which no step does this is safe.
-/

set_option autoImplicit false

namespace Phoenixcoin.Analysis

open Lib Program List Option HybridWallet

variable {C : KeyCrypto} {o : WalletDbOutcome} {w w' : HybridWallet}

/-! ## Writes that leave the record of the used keys alone -/

def LeavesUsed (f : WalletRecords → Option WalletRecords) : Prop :=
  ∀ db db', f db = some db' → db'.hybused = db.hybused

theorem leavesUsed_some : LeavesUsed some := by
  intro db db' h
  rw [some.inj h]

variable {f : WalletRecords → Option WalletRecords} {w'' : HybridWallet} {ids : Set CHybridKeyID}
  {result : Option CHybridKeyID × HybridWallet} {fresh : ℕ → Option (FreshKey C)}

theorem LeavesUsed.bind {g : WalletRecords → Option WalletRecords} (hf : LeavesUsed f)
    (hg : LeavesUsed g) : LeavesUsed fun db => (f db).bind g := by
  intro db db' h
  obtain ⟨mid, hmid, h⟩ := bind_eq_some_iff.mp h
  exact (hg mid db' h).trans (hf db mid hmid)

theorem leavesUsed_guarded {p : WalletRecords → Prop} [DecidablePred p]
    {f : WalletRecords → WalletRecords} (hf : ∀ db, (f db).hybused = db.hybused) :
    LeavesUsed fun db => if p db then some (f db) else none := by
  intro db db' h
  dsimp only at h
  split at h
  · rw [← some.inj h]
    exact hf db
  · cases h

theorem LeavesUsed.transaction (hf : LeavesUsed f) {db db' : WalletRecords}
    (h : o.transaction f db = some db') : db'.hybused = db.hybused := by
  unfold WalletDbOutcome.transaction at h
  split at h
  · exact hf db db' (filter_eq_some_iff.mp h).1
  · cases h

theorem leavesUsed_WriteHybridKey (hybridID : CHybridKeyID) (disk : CHybridKeyDisk) :
    LeavesUsed (o.WriteHybridKey hybridID disk) :=
  leavesUsed_guarded fun _ => rfl

theorem leavesUsed_WriteHybridAddressEntry (hybridID : CHybridKeyID)
    (entry : CHybridAddressEntry) : LeavesUsed (o.WriteHybridAddressEntry hybridID entry) :=
  leavesUsed_guarded fun _ => rfl

theorem leavesUsed_WriteCryptedKey (vchPubKey : CPubKey) (crypted : valtype)
    (keyMeta : CKeyMetadata) : LeavesUsed (o.WriteCryptedKey vchPubKey crypted keyMeta) :=
  leavesUsed_guarded fun _ => rfl

theorem leavesUsed_StageKeyRecord (w : HybridWallet) (key : CKey) (keyMeta : CKeyMetadata)
    (crypted : valtype) : LeavesUsed (w.StageKeyRecord o key keyMeta crypted) := by
  unfold StageKeyRecord
  split_ifs
  · exact leavesUsed_WriteCryptedKey key.vchPubKey crypted keyMeta
  · exact leavesUsed_guarded fun _ => rfl

theorem leavesUsed_StageHybridKey (w : HybridWallet) (hk : CHybridKey) (ecdsa : CKey)
    (disk : CHybridKeyDisk) (keyMeta : CKeyMetadata) (crypted : valtype) (fPersist : Bool) :
    LeavesUsed (w.StageHybridKey C o hk ecdsa disk keyMeta crypted fPersist) := by
  unfold StageHybridKey
  split_ifs
  · intro db db' h
    cases h
  all_goals
    apply LeavesUsed.bind
    · first
        | exact leavesUsed_StageKeyRecord w ecdsa keyMeta crypted
        | exact leavesUsed_some
    · intro db db' h
      obtain ⟨hybridID, -, h⟩ := bind_eq_some_iff.mp h
      exact leavesUsed_WriteHybridKey hybridID disk db db' h

theorem leavesUsed_stagePool (w : HybridWallet) (staged : List StagedHybridKey) :
    LeavesUsed (w.stagePool C o staged) := by
  induction staged with
  | nil => exact leavesUsed_some
  | cons entry staged ih =>
    exact (leavesUsed_StageHybridKey w entry.key entry.ecdsa entry.disk entry.metadata
      entry.cryptedSecret entry.fPersistKey).bind ih

theorem leavesUsed_stageImport (w : HybridWallet) (r : HybridImport)
    (entry : StagedHybridKey) : LeavesUsed (w.stageImport C o r entry) := by
  apply (leavesUsed_StageHybridKey w entry.key entry.ecdsa entry.disk entry.metadata
    entry.cryptedSecret entry.fPersistKey).bind
  split_ifs
  · exact leavesUsed_some
  · exact leavesUsed_WriteHybridAddressEntry entry.hybridID r.entry

/-! ## Operations that leave the used keys alone -/

/-- What says which keys were used stays the same, in memory and on disk. -/
structure SameUsage (w w' : HybridWallet) : Prop where
  used : w'.setUsedHybridKeys = w.setUsedHybridKeys
  stored : w'.db.hybused = w.db.hybused
  fileBacked : w'.fFileBacked = w.fFileBacked
  crypted : w.fUseCrypto = true → w'.fUseCrypto = true

theorem SameUsage.refl (w : HybridWallet) : SameUsage w w := ⟨rfl, rfl, rfl, id⟩

theorem SameUsage.trans (h : SameUsage w w') (h' : SameUsage w' w'') : SameUsage w w'' where
  used := h'.used.trans h.used
  stored := h'.stored.trans h.stored
  fileBacked := h'.fileBacked.trans h.fileBacked
  crypted := fun hcrypted => h'.crypted (h.crypted hcrypted)

/-- The used keys stay the same, and no key but those of `ids` begins to wait. -/
structure Waits (ids : Set CHybridKeyID) (w w' : HybridWallet) : Prop where
  usage : SameUsage w w'
  waiting : ∀ hybridID ∈ w'.setUnusedHybridKeys, hybridID ∈ w.setUnusedHybridKeys ∨ hybridID ∈ ids

theorem Waits.refl (ids : Set CHybridKeyID) (w : HybridWallet) : Waits ids w w :=
  ⟨SameUsage.refl w, fun _ h => Or.inl h⟩

theorem Waits.trans (h : Waits ids w w') (h' : Waits ids w' w'') : Waits ids w w'' where
  usage := h.usage.trans h'.usage
  waiting := by
    intro hybridID hmem
    rcases h'.waiting hybridID hmem with hbefore | hnew
    · exact h.waiting hybridID hbefore
    · exact Or.inr hnew

theorem Waits.mono {ids' : Set CHybridKeyID} (h : Waits ids w w') (hsub : ids ⊆ ids') :
    Waits ids' w w' :=
  ⟨h.usage, fun hybridID hmem => (h.waiting hybridID hmem).imp_right fun hid => hsub hid⟩

theorem Waits.of_same (h : SameUsage w w') (hsame : w'.setUnusedHybridKeys = w.setUnusedHybridKeys)
    :
    Waits ids w w' := by
  refine ⟨h, ?_⟩
  rw [hsame]
  exact fun _ hmem => Or.inl hmem

section Making

variable {ids : Set CHybridKeyID}

theorem waits_addLegacyKey (w : HybridWallet) (key : CKey) (keyMeta : CKeyMetadata)
    (crypted : valtype) : Waits ids w (w.addLegacyKey C key keyMeta crypted) := by
  apply Waits.of_same
  · refine ⟨?_, ?_, addLegacyKey_fFileBacked .., ?_⟩
    · unfold addLegacyKey
      split_ifs <;> rfl
    · rw [addLegacyKey_db]
    · intro hcrypted
      unfold addLegacyKey
      split_ifs <;> exact hcrypted
  · unfold addLegacyKey
    split_ifs <;> rfl

theorem waits_addHybridKey (w : HybridWallet) (hybridID : CHybridKeyID) (hk : CHybridKey)
    (disk : Option CHybridKeyDisk) : Waits ids w (w.addHybridKey hybridID hk disk) :=
  Waits.of_same ⟨rfl, rfl, rfl, id⟩ rfl

theorem waits_registerPoolKey (fUnused : Bool) (w : HybridWallet) (entry : StagedHybridKey)
    (hid : fUnused = true → entry.hybridID ∈ ids) :
    Waits ids w (registerPoolKey C fUnused w entry) := by
  unfold registerPoolKey
  dsimp only
  generalize hw₁ : (if entry.fPersistKey then
    w.addLegacyKey C entry.ecdsa entry.metadata entry.cryptedSecret else w) = w₁
  have hfirst : Waits ids w w₁ := by
    rw [← hw₁]
    split_ifs
    · exact waits_addLegacyKey ..
    · exact Waits.refl ids w
  have hsecond := hfirst.trans (waits_addHybridKey w₁ entry.hybridID entry.key
    (if w₁.fFileBacked then some entry.disk else none))
  apply hsecond.trans
  refine ⟨⟨rfl, rfl, rfl, id⟩, ?_⟩
  intro hybridID hmem
  by_cases hunused : fUnused = true
  · rw [if_pos hunused] at hmem
    rcases Finset.mem_insert.mp hmem with rfl | hold
    · exact Or.inr (hid hunused)
    · exact Or.inl hold
  · rw [if_neg hunused] at hmem
    exact Or.inl hmem

theorem waits_registerPool (fUnused : Bool) (w : HybridWallet) (staged : List StagedHybridKey)
    (hids : ∀ entry ∈ staged, fUnused = true → entry.hybridID ∈ ids) :
    Waits ids w (staged.foldl (registerPoolKey C fUnused) w) := by
  induction staged generalizing w with
  | nil => exact Waits.refl ids w
  | cons entry staged ih =>
    exact (waits_registerPoolKey fUnused w entry (hids entry mem_cons_self)).trans
      (ih _ fun other hother => hids other (mem_cons_of_mem _ hother))

/-- A pool lets its own keys wait, if any. -/
theorem waits_makePool {fAlwaysPersist fUnused : Bool} {fresh : List (Option (FreshKey C))}
    (h : w.makePool C o fAlwaysPersist fUnused fresh = some w') :
    Waits {hybridID | fUnused = true ∧ hybridID ∈ freshIDs C fresh} w w' := by
  obtain ⟨staged, db, hstaged, hdb, rfl⟩ := makePool_eq_some h
  have hstored : db.hybused = w.db.hybused := by
    split_ifs at hdb
    · exact (leavesUsed_stagePool w staged).transaction hdb
    · rw [← some.inj hdb]
  have hwrite : Waits {hybridID | fUnused = true ∧ hybridID ∈ freshIDs C fresh} w
      { w with db := db } := Waits.of_same ⟨rfl, hstored, rfl, id⟩ rfl
  apply hwrite.trans
  apply waits_registerPool
  intro entry hentry hunused
  refine ⟨hunused, ?_⟩
  rw [← map_hybridID_eq hstaged]
  exact List.mem_map_of_mem hentry

/-- The keys that an operation lets wait. -/
def pooledIDs (w : HybridWallet) : HybridKeyOp C → Set CHybridKeyID
  | .ensureHybridKeyPool _ nTarget fresh =>
    {hybridID |
      hybridID ∈ freshIDs C ((List.range (nTarget - w.mapHybridKeys.keys.card)).map fresh)}
  | _ => ∅

/-- Only `EnsureHybridKeyPool` lets the keys that it makes wait. -/
theorem waits_makes {op : HybridKeyOp C} (h : op.Makes w w') : Waits (pooledIDs w op) w w' := by
  cases op with
  | newHybridKeyPool o fresh =>
    refine (waits_makePool h.2).mono ?_
    rintro hybridID ⟨hfalse, -⟩
    cases hfalse
  | ensureHybridKeyPool o nTarget fresh =>
    refine (waits_makePool h.2).mono ?_
    exact fun hybridID hid => hid.2
  | ensureHybridKey o pkey nTime keyID =>
    obtain ⟨key, p, hybridID, disk, db, -, hmade, rfl⟩ := h
    have hstored : db.hybused = w.db.hybused := by
      have hpersist := hmade.persist
      unfold persistHybridKey at hpersist
      split at hpersist
      · obtain ⟨made, -, hpersist⟩ := bind_eq_some_iff.mp hpersist
        obtain ⟨crypted, -, hpersist⟩ := bind_eq_some_iff.mp hpersist
        obtain ⟨db', hdb, hpersist⟩ := bind_eq_some_iff.mp hpersist
        cases hpersist
        exact (leavesUsed_StageHybridKey w _ _ _ _ _ _).transaction hdb
      · cases hpersist
        rfl
    have hwrite : Waits ∅ w { w with db := db } := Waits.of_same ⟨rfl, hstored, rfl, id⟩ rfl
    exact hwrite.trans (waits_addHybridKey ..)
  | importHybridKey o r =>
    obtain ⟨hybridID, hk, ecdsa, cryptedSecret, disk, db, hmade, rfl⟩ := h
    have hstored : db.hybused = w.db.hybused := by
      by_cases hfile : w.fFileBacked = true
      · obtain ⟨made, -, -, hdb⟩ := persistImport_eq_ok hfile hmade.persist
        exact (leavesUsed_stageImport w r _).transaction hdb
      · have hpersist := hmade.persist
        rw [persistImport, if_neg hfile] at hpersist
        cases hpersist
        rfl
    have hwrite : Waits ∅ w { w with db := db } := Waits.of_same ⟨rfl, hstored, rfl, id⟩ rfl
    unfold registerImport
    dsimp only
    generalize hw₁ : (if (! w.HaveKey (C.GetID ecdsa.vchPubKey)) = true then
      ({ w with db := db } : HybridWallet).addLegacyKey C ecdsa (.ofTime hk.nCreateTime)
        cryptedSecret else { w with db := db }) = w₁
    have hlegacy : Waits ∅ { w with db := db } w₁ := by
      rw [← hw₁]
      split_ifs
      · exact waits_addLegacyKey ..
      · exact Waits.refl ..
    have hadded : Waits ∅ w₁ (w₁.addHybridKey hybridID hk disk) := waits_addHybridKey ..
    exact ((hwrite.trans hlegacy).trans hadded).trans (Waits.of_same ⟨rfl, rfl, rfl, id⟩ rfl)

end Making

/-! ## Lock and Unlock -/

theorem waits_Lock (w : HybridWallet) : Waits ∅ w w.Lock.2 := by
  unfold Lock
  split_ifs
  · exact ⟨⟨rfl, rfl, rfl, id⟩, fun _ hmem => absurd hmem (Finset.notMem_empty _)⟩
  · exact Waits.refl ∅ w

theorem Lock_unused (hcrypted : w.fUseCrypto = true) : w.Lock.2.setUnusedHybridKeys = ∅ := by
  have hcrypted : w.IsCrypted = true := hcrypted
  rw [Lock, if_neg (not_not.mpr hcrypted)]

theorem waits_decryptHybridKey (vMasterKey : CKeyingMaterial) (state : Bool × HybridWallet)
    (hybridID : CHybridKeyID) :
    Waits {id | id = hybridID ∧ id ∉ state.2.setUsedHybridKeys} state.2
      (decryptHybridKey C o vMasterKey state hybridID).2 := by
  obtain ⟨fOk, w⟩ := state
  unfold decryptHybridKey
  dsimp only
  split
  · exact Waits.refl ..
  · next disk hdisk =>
    split
    · exact Waits.refl ..
    · split
      · exact Waits.refl ..
      · next mem hmem =>
        split
        · exact Waits.refl ..
        · have hloaded : Waits {id | id = hybridID ∧ id ∉ w.setUsedHybridKeys} w { w with
                mapHybridKeys := w.mapHybridKeys.insert hybridID mem
                setUnusedHybridKeys :=
                  if hybridID ∈ w.setUsedHybridKeys then w.setUnusedHybridKeys
                  else insert hybridID w.setUnusedHybridKeys } := by
            refine ⟨⟨rfl, rfl, rfl, id⟩, ?_⟩
            intro other hother
            by_cases hused : hybridID ∈ w.setUsedHybridKeys
            · rw [if_pos hused] at hother
              exact Or.inl hother
            · rw [if_neg hused] at hother
              rcases Finset.mem_insert.mp hother with rfl | hold
              · exact Or.inr ⟨rfl, hused⟩
              · exact Or.inl hold
          split
          · exact hloaded
          · split
            · exact hloaded
            · next enc _ =>
              split
              · exact hloaded
              · next db hdb =>
                have hstored : db.hybused = w.db.hybused :=
                  leavesUsed_WriteHybridKey hybridID enc w.db db hdb
                exact hloaded.trans (Waits.of_same ⟨rfl, hstored, rfl, id⟩ rfl)

def unrecorded (w : HybridWallet) : Set CHybridKeyID :=
  {hybridID | (w.mapHybridKeyDisk.lookup hybridID).isSome ∧ hybridID ∉ w.setUsedHybridKeys}

theorem waits_decryptHybridKeys (vMasterKey : CKeyingMaterial) (l : List CHybridKeyID)
    (state : Bool × HybridWallet) :
    Waits {id | id ∈ l ∧ id ∉ state.2.setUsedHybridKeys} state.2
      (l.foldl (decryptHybridKey C o vMasterKey) state).2 := by
  induction l generalizing state with
  | nil => exact Waits.refl ..
  | cons hybridID l ih =>
    have hfirst := waits_decryptHybridKey (C := C) (o := o) vMasterKey state hybridID
    have hrest := ih (decryptHybridKey C o vMasterKey state hybridID)
    rw [hfirst.usage.used] at hrest
    apply (hfirst.mono _).trans (hrest.mono _)
    · rintro id ⟨rfl, hunused⟩
      exact ⟨mem_cons_self, hunused⟩
    · rintro id ⟨hmem, hunused⟩
      exact ⟨mem_cons_of_mem _ hmem, hunused⟩

theorem waits_unlockWith {vMasterKey : CKeyingMaterial} {result : Bool × HybridWallet}
    (h : w.unlockWith C o vMasterKey = some result) :
    w.opensFirstKey C vMasterKey = true ∧ Waits (unrecorded w) w result.2 := by
  unfold unlockWith at h
  split at h
  · next hopens =>
    refine ⟨hopens, ?_⟩
    have hdecrypt : Waits (unrecorded w) w
        (({ w with vMasterKey := vMasterKey } : HybridWallet).DecryptHybridKeys C o
          vMasterKey).2 := by
      have hopened : Waits (unrecorded w) w { w with vMasterKey := vMasterKey } :=
        Waits.of_same ⟨rfl, rfl, rfl, id⟩ rfl
      have hkeys := waits_decryptHybridKeys (C := C) (o := o) vMasterKey
        (Table.sortedKeys w.mapHybridKeyDisk) (true, { w with vMasterKey := vMasterKey })
      refine hopened.trans (hkeys.mono ?_)
      rintro id ⟨hmem, hunused⟩
      exact ⟨Table.mem_sortedKeys.mp hmem, hunused⟩
    dsimp only at h
    split at h
    · rw [← some.inj h]
      exact hdecrypt
    · rw [← some.inj h]
      exact hdecrypt.trans ((waits_Lock _).mono (Set.empty_subset _))
  · cases h

/-! ## The keys that are handed out -/

/-- What `GetUnusedHybridKey` does with the key that it returns. -/
structure Issues (w w' : HybridWallet) (hybridID : CHybridKeyID) : Prop where
  waited : hybridID ∈ w.setUnusedHybridKeys
  waiting : w'.setUnusedHybridKeys = w.setUnusedHybridKeys.erase hybridID
  used : w'.setUsedHybridKeys = insert hybridID w.setUsedHybridKeys
  stored : w'.fFileBacked = true → w'.db.hybused = some w'.setUsedHybridKeys

/-- A key is handed out, or everything stays as it was. -/
theorem allocateHybridKey_cases (h : w.allocateHybridKey o = result) :
    result.1 = none ∧ Waits ∅ w result.2 ∨ ∃ hybridID, result.1 = some hybridID ∧
      Issues w result.2 hybridID := by
  subst h
  unfold allocateHybridKey
  split
  · exact Or.inl ⟨rfl, Waits.refl ∅ w⟩
  · next hybridID hfirst =>
    have hwaited : hybridID ∈ w.setUnusedHybridKeys :=
      (Finset.mem_sort _).mp (mem_of_mem_head? hfirst)
    by_cases hfile : w.fFileBacked = true
    · rw [if_pos hfile]
      split
      · left
        refine ⟨rfl, ⟨?_, rfl, rfl, id⟩, ?_⟩
        · by_cases hwas : hybridID ∈ w.setUsedHybridKeys
          · simp [hwas]
          · simp [hwas]
        · intro other hother
          rw [Finset.insert_erase hwaited] at hother
          exact Or.inl hother
      · next db hdb =>
        right
        refine ⟨hybridID, rfl, hwaited, rfl, rfl, ?_⟩
        intro _
        unfold WalletDbOutcome.WriteHybridUsedKeys at hdb
        split at hdb
        · rw [← some.inj hdb]
        · cases hdb
    · rw [if_neg hfile]
      exact Or.inr ⟨hybridID, rfl, hwaited, rfl, rfl, fun hbacked => absurd hbacked hfile⟩

def newIDs (C : KeyCrypto) (fresh : ℕ → Option (FreshKey C)) : Set CHybridKeyID :=
  {hybridID | ∃ n, hybridID ∈ freshIDs C ((List.range n).map fresh)}

theorem waits_EnsureHybridKeyPool {nTarget : ℕ} {fOk : Bool}
    (h : w.EnsureHybridKeyPool C o nTarget fresh = (fOk, w')) : Waits (newIDs C fresh) w w' := by
  rcases EnsureHybridKeyPool_cases fresh h with rfl | ⟨-, -, hpool⟩
  · exact Waits.refl ..
  · apply (waits_makePool hpool).mono
    exact fun hybridID hid => ⟨_, hid.2⟩

/-- The keys that `GetUnusedHybridKey` may make: it asks for them where few are left. -/
def refillIDs (C : KeyCrypto) (w : HybridWallet) (fresh : ℕ → Option (FreshKey C)) :
    Set CHybridKeyID :=
  {hybridID | w.setUnusedHybridKeys.card < 5 ∧ hybridID ∈ newIDs C fresh}

/-- Keys are made first where few are left. -/
theorem GetUnusedHybridKey_cases {oPool : WalletDbOutcome}
    (h : w.GetUnusedHybridKey C o oPool fresh = result) :
    result.1 = none ∧ Waits (refillIDs C w fresh) w result.2 ∨
      ∃ hybridID u, result.1 = some hybridID ∧ Waits (refillIDs C w fresh) w u ∧
        Issues u result.2 hybridID := by
  have hallocate : ∀ u, Waits (refillIDs C w fresh) w u → u.allocateHybridKey o = result →
      result.1 = none ∧ Waits (refillIDs C w fresh) w result.2 ∨
        ∃ hybridID u, result.1 = some hybridID ∧ Waits (refillIDs C w fresh) w u ∧
          Issues u result.2 hybridID := by
    intro u hu hresult
    rcases allocateHybridKey_cases hresult with ⟨hnone, hsame⟩ | ⟨hybridID, hsome, hissues⟩
    · exact Or.inl ⟨hnone, hu.trans (hsame.mono (Set.empty_subset _))⟩
    · exact Or.inr ⟨hybridID, u, hsome, hu, hissues⟩
  unfold GetUnusedHybridKey at h
  split at h
  · next hfew =>
    split at h
    · next u hpool =>
      subst h
      exact Or.inl ⟨rfl, (waits_EnsureHybridKeyPool hpool).mono fun _ hid => ⟨hfew, hid⟩⟩
    · next u hpool =>
      exact hallocate u ((waits_EnsureHybridKeyPool hpool).mono fun _ hid => ⟨hfew, hid⟩) h
  · exact hallocate w (Waits.refl ..) h

/-- Where enough keys wait one of them is handed out. -/
theorem GetUnusedHybridKey_eq_some (hmany : 5 ≤ w.setUnusedHybridKeys.card)
    (hwrite : o.write .hybused = true) (oPool : WalletDbOutcome)
    (fresh : ℕ → Option (FreshKey C)) :
    ∃ hybridID ∈ w.setUnusedHybridKeys,
      (w.GetUnusedHybridKey C o oPool fresh).1 = some hybridID := by
  rw [GetUnusedHybridKey, if_neg (by omega)]
  unfold allocateHybridKey
  cases hfirst : (w.setUnusedHybridKeys.sort).head? with
  | none =>
    have hlength : (w.setUnusedHybridKeys.sort).length = w.setUnusedHybridKeys.card :=
      Finset.length_sort (· ≤ ·)
    rw [head?_eq_none_iff.mp hfirst, length_nil] at hlength
    omega
  | some hybridID =>
    refine ⟨hybridID, (Finset.mem_sort _).mp (mem_of_mem_head? hfirst), ?_⟩
    unfold WalletDbOutcome.WriteHybridUsedKeys
    dsimp only
    split_ifs <;> rfl

/-! ## Labels and used keys -/

theorem waits_SetHybridAddressBookName (nTime : ℤ) (keyID : CHybridKeyID)
    (strName strPurpose : List UInt8) :
    Waits ∅ w (w.SetHybridAddressBookName o nTime keyID strName strPurpose).2 := by
  unfold SetHybridAddressBookName
  dsimp only
  split_ifs
  · exact Waits.refl ∅ w
  · split
    · exact Waits.of_same ⟨rfl, rfl, rfl, id⟩ rfl
    · next db hdb =>
      have hstored : db.hybused = w.db.hybused :=
        leavesUsed_WriteHybridAddressEntry keyID _ w.db db hdb
      exact Waits.of_same ⟨rfl, hstored, rfl, id⟩ rfl
  · exact Waits.of_same ⟨rfl, rfl, rfl, id⟩ rfl

/-- The keys that the labels and the transactions of a wallet show to be used, and those that were
recorded before. -/
def backfilled (C : KeyCrypto) (w : HybridWallet) : Finset CHybridKeyID :=
  w.setUsedHybridKeys ∪ w.mapHybridAddressBook.keys ∪
    (w.walletOutputs.filterMap (w.backfilledBy C)).toFinset

theorem subset_backfilled : w.setUsedHybridKeys ⊆ backfilled C w :=
  Finset.subset_union_left.trans Finset.subset_union_left

/-- What `BackfillHybridUsedKeys` does with the two sets. -/
theorem BackfillHybridUsedKeys_spec (C : KeyCrypto) (o : WalletDbOutcome) (w : HybridWallet) :
    (w.BackfillHybridUsedKeys C o).setUsedHybridKeys = backfilled C w ∧
      (w.BackfillHybridUsedKeys C o).setUnusedHybridKeys = w.setUnusedHybridKeys ∧
      ((w.BackfillHybridUsedKeys C o).db.hybused = w.db.hybused ∨
        (w.BackfillHybridUsedKeys C o).db.hybused = some (backfilled C w)) := by
  refine ⟨rfl, rfl, ?_⟩
  unfold BackfillHybridUsedKeys
  dsimp only
  split_ifs
  · unfold WalletDbOutcome.WriteHybridUsedKeys
    split_ifs
    · exact Or.inr rfl
    · exact Or.inl rfl
  · exact Or.inl rfl

end Phoenixcoin.Analysis
