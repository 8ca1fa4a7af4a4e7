import Phoenixcoin.Analysis.LockUnlock

/-!
# Unlock restores the hybrid keys

Runs of the operations on hybrid keys that succeed, from an unencrypted wallet on. Each step keeps
the invariant that the keys are at rest, so that `Unlock` with the master key gives back what the
wallet held when it was unlocked last.
-/

set_option autoImplicit false

namespace Phoenixcoin.Analysis

open Lib Program HybridWallet

variable {C : PassphraseCrypto} {w₀ w w' : HybridWallet} {key : Option CKeyingMaterial}
  {known : CHybridKeyID → Option HybridSecrets}

/-- One operation on the hybrid keys of a wallet, with what it gets from outside. -/
inductive HybridOp (C : PassphraseCrypto) where
  | makeKeys (op : HybridKeyOp C.toKeyCrypto)
  | encryptWallet (pass : SecureString) (e : EncryptionInput C.toKeyCrypto) (o : EncryptionOutcome)
  | lock
  | unlock (o : WalletDbOutcome) (pass : SecureString)

def successful (result : Bool × HybridWallet) : Option HybridWallet :=
  if result.1 then some result.2 else none

theorem successful_eq_some {result : Bool × HybridWallet} (h : successful result = some w') :
    result = (true, w') := by
  unfold successful at h
  split at h
  · next hok =>
    cases h
    rw [← hok]
  · cases h

/-- What an operation may be asked for that makes keys: creation times that are positive after the
cut to 32 bits, and identifiers that no other key has. -/
def HybridKeyOp.Restorable {C : KeyCrypto} (w : HybridWallet) : HybridKeyOp C → Prop
  | .newHybridKeyPool _ fresh => FreshPool C w fresh
  | .ensureHybridKeyPool _ nTarget fresh =>
    FreshPool C w ((List.range (nTarget - w.mapHybridKeys.keys.card)).map fresh)
  | .ensureHybridKey _ pkey nTime keyID =>
    w.GetHybridKeyIDByLegacyKeyID C keyID = none → 0 < toInt32 nTime ∧
      ∀ p ecdsa hybridID, pkey = some p → w.toCKeyStore.GetKey C keyID = some ecdsa →
        (hybridKeyOf ecdsa p.val nTime).GetHybridID C = some hybridID →
        w.mapHybridKeys.lookup hybridID = none
  | .importHybridKey _ r => 0 < toInt32 r.nCreateTime

namespace HybridOp

def run (w : HybridWallet) : HybridOp C → Option HybridWallet
  | makeKeys op => successful (op.run w)
  | encryptWallet pass e o =>
    let ended := w.EncryptWallet C pass e o
    if ended.result = some true then some ended.wallet else none
  | lock => successful w.Lock
  | unlock o pass => successful (w.Unlock C o pass)

def masterKey (key : Option CKeyingMaterial) : HybridOp C → Option CKeyingMaterial
  | encryptWallet _ e _ => some e.vMasterKey
  | _ => key

/-- What an operation may be asked for; a passphrase may find no other master key. -/
def Restorable (w : HybridWallet) (key : Option CKeyingMaterial) : HybridOp C → Prop
  | makeKeys op => op.Restorable w
  | encryptWallet _ _ _ => True
  | lock => True
  | unlock _ pass => ∀ nID kMasterKey vMasterKey, w.mapMasterKeys.lookup nID = some kMasterKey →
      C.openMasterKey pass kMasterKey = some vMasterKey → key = some vMasterKey

end HybridOp

/-- A wallet that operations have reached from `w₀`, its master key, and the hybrid keys that it
held when it was unlocked last. -/
inductive HybridRun (C : PassphraseCrypto) (w₀ : HybridWallet) :
    HybridWallet → Option CKeyingMaterial → (CHybridKeyID → Option HybridSecrets) → Prop
  | start : HybridRun C w₀ w₀ none (loadedSecrets w₀)
  | step {w w' : HybridWallet} {key : Option CKeyingMaterial}
      {known : CHybridKeyID → Option HybridSecrets} (op : HybridOp C)
      (run : HybridRun C w₀ w key known) (restorable : op.Restorable w key)
      (ran : op.run w = some w') :
      HybridRun C w₀ w' (op.masterKey key) (if w'.IsLocked then known else loadedSecrets w')

/-! ## One step -/

variable {known' : CHybridKeyID → Option HybridSecrets} {o : WalletDbOutcome} {pass : SecureString}
  {vMasterKey : CKeyingMaterial} {op : HybridOp C}

/-- What an operation has to show: the invariant, where a wallet that is locked afterwards has
learnt nothing. -/
theorem KeysAtRest.settled (h : KeysAtRest C.toKeyCrypto key known' w')
    (hlocked : w'.IsLocked = true → known' = known) :
    KeysAtRest C.toKeyCrypto key (if w'.IsLocked then known else loadedSecrets w') w' := by
  by_cases hstate : w'.IsLocked = true
  · rw [if_pos hstate, ← hlocked hstate]
    exact h
  · have hunlocked : w'.IsLocked = false := by simpa using hstate
    rw [if_neg hstate, h.loaded hunlocked]
    exact h

/-- An operation that leaves the wallet unlocked. -/
theorem KeysAtRest.unlocked (h : KeysAtRest C.toKeyCrypto key known' w')
    (hunlocked : w'.IsLocked = false) :
    KeysAtRest C.toKeyCrypto key (if w'.IsLocked then known else loadedSecrets w') w' := by
  apply h.settled
  intro hlocked
  rw [hunlocked] at hlocked
  cases hlocked

/-- The wallet opens when a passphrase finds its master key. -/
theorem EncryptedWallet.unlockFrom (h : EncryptedWallet C.toKeyCrypto vMasterKey known w)
    (hlocked : w.IsLocked = true) {masterKeys : List CMasterKey}
    (hright : ∀ kMasterKey ∈ masterKeys, ∀ vFound,
      C.openMasterKey pass kMasterKey = some vFound → vFound = vMasterKey)
    (hrun : w.unlockFrom C o pass masterKeys = (true, w')) :
    EncryptedWallet C.toKeyCrypto vMasterKey known w' ∧ w'.IsLocked = false := by
  cases masterKeys with
  | nil => cases hrun
  | cons kMasterKey masterKeys =>
    unfold HybridWallet.unlockFrom at hrun
    cases hopen : C.openMasterKey pass kMasterKey with
    | none =>
      rw [hopen] at hrun
      cases hrun
    | some vFound =>
      obtain ⟨unlocked, hunlock, hinv, hstate, _⟩ := h.unlockWith (o := o) hlocked
      rw [hopen, hright kMasterKey List.mem_cons_self vFound hopen] at hrun
      dsimp only at hrun
      rw [hunlock] at hrun
      cases hrun
      exact ⟨hinv, hstate⟩

theorem KeysAtRest.unlock (h : KeysAtRest C.toKeyCrypto key known w)
    (hright : (HybridOp.unlock o pass : HybridOp C).Restorable w key)
    (hrun : w.Unlock C o pass = (true, w')) :
    KeysAtRest C.toKeyCrypto key known w' ∧ w'.IsLocked = false := by
  unfold Unlock at hrun
  split at hrun
  · cases hrun
  · next hlocked =>
    have hlocked : w.IsLocked = true := not_not.mp hlocked
    cases key with
    | none =>
      rw [PlainWallet.unlocked h] at hlocked
      cases hlocked
    | some vMasterKey =>
      refine EncryptedWallet.unlockFrom h hlocked ?_ hrun
      intro kMasterKey hmem vFound hopen
      obtain ⟨nID, _, hlookup⟩ := List.mem_filterMap.mp hmem
      exact (Option.some.inj (hright nID kMasterKey vFound hlookup hopen)).symm

theorem KeysAtRest.lock (h : KeysAtRest C.toKeyCrypto key known w) (hlock : w.Lock.1 = true) :
    KeysAtRest C.toKeyCrypto key known w.Lock.2 := by
  cases key with
  | none =>
    have hplain : w.IsCrypted = false := PlainWallet.plain h
    rw [Lock, if_pos (by simp [hplain])] at hlock
    cases hlock
  | some vMasterKey => exact (EncryptedWallet.lock h).1

/-- An operation that makes keys keeps the keys at rest. -/
theorem KeysAtRest.makeKeys {C : KeyCrypto} (h : KeysAtRest C key known w) {op : HybridKeyOp C}
    (hop : op.Restorable w) (hmakes : op.Makes w w') :
    ∃ known', KeysAtRest C key known' w' ∧ w'.IsLocked = false := by
  cases op with
  | newHybridKeyPool o fresh => exact h.makePool hmakes.1 hop hmakes.2
  | ensureHybridKeyPool o nTarget fresh => exact h.makePool hmakes.1 hop hmakes.2
  | ensureHybridKey o pkey nTime keyID =>
    obtain ⟨ecdsa, p, hybridID, disk, db, hpkey, hensured, rfl⟩ := hmakes
    obtain ⟨htime, hfree⟩ := hop hensured.unknown
    obtain ⟨hunlocked, hinv⟩ := h.ensured hensured p.property htime
      (hfree p ecdsa hybridID hpkey hensured.found hensured.derives)
    exact ⟨_, hinv, hunlocked⟩
  | importHybridKey o r =>
    obtain ⟨hybridID, hk, ecdsa, cryptedSecret, disk, db, himported, rfl⟩ := hmakes
    exact ⟨_, h.imported himported hop⟩

/-- Each operation that succeeds keeps the keys at rest. -/
theorem KeysAtRest.step (h : KeysAtRest C.toKeyCrypto key known w) (hop : op.Restorable w key)
    (hrun : op.run w = some w') :
    KeysAtRest C.toKeyCrypto (op.masterKey key)
      (if w'.IsLocked then known else loadedSecrets w') w' := by
  cases op with
  | makeKeys op =>
    rcases HybridKeyOp.run_cases (successful_eq_some hrun) with rfl | ⟨_, hmakes⟩
    · exact h.settled fun _ => rfl
    · obtain ⟨known', hknown', hunlocked⟩ := h.makeKeys hop hmakes
      exact hknown'.unlocked hunlocked
  | encryptWallet pass e o =>
    have hended : (w.EncryptWallet C pass e o).result = some true ∧
        (w.EncryptWallet C pass e o).wallet = w' := by
      unfold HybridOp.run at hrun
      dsimp only at hrun
      split at hrun
      · next hresult => exact ⟨hresult, Option.some.inj hrun⟩
      · cases hrun
    cases key with
    | none =>
      obtain ⟨hinv, hlocked⟩ := PlainWallet.EncryptWallet h hended.1
      rw [hended.2] at hinv hlocked
      have hinv : KeysAtRest C.toKeyCrypto (some e.vMasterKey) known w' := hinv
      exact hinv.settled fun _ => rfl
    | some vMasterKey =>
      have hcrypted : w.IsCrypted = true := EncryptedWallet.crypted h
      have hrefused := hended.1
      rw [EncryptWallet, if_pos hcrypted] at hrefused
      cases hrefused
  | lock =>
    have hlock := successful_eq_some hrun
    have hkept := h.lock (congrArg Prod.fst hlock)
    rw [hlock] at hkept
    exact hkept.settled fun _ => rfl
  | unlock o pass =>
    obtain ⟨hinv, hunlocked⟩ := h.unlock hop (successful_eq_some hrun)
    exact hinv.unlocked hunlocked

/-! ## Runs -/

theorem HybridRun.keysAtRest (hstart : PlainWallet C.toKeyCrypto (loadedSecrets w₀) w₀)
    (run : HybridRun C w₀ w key known) : KeysAtRest C.toKeyCrypto key known w := by
  induction run with
  | start => exact hstart
  | step op _ restorable ran ih => exact ih.step restorable ran

/-- After `Lock` the master key of the wallet unlocks it, and brings back the secrets that it held
when it was unlocked last. -/
theorem lock_unlock_restores (C : PassphraseCrypto) (w₀ w : HybridWallet)
    (vMasterKey : CKeyingMaterial) (known : CHybridKeyID → Option HybridSecrets)
    (o : WalletDbOutcome) (hstart : PlainWallet C.toKeyCrypto (loadedSecrets w₀) w₀)
    (run : HybridRun C w₀ w (some vMasterKey) known) :
    ∃ w', w.Lock.2.unlockWith C.toKeyCrypto o vMasterKey = some (true, w') ∧
      loadedSecrets w' = known ∧ (w.IsLocked = false → loadedSecrets w' = loadedSecrets w) := by
  have hinv : EncryptedWallet C.toKeyCrypto vMasterKey known w := run.keysAtRest hstart
  obtain ⟨hkept, hlocked⟩ := hinv.lock
  obtain ⟨w', hunlock, _, _, hloaded, _⟩ := hkept.unlockWith (o := o) hlocked
  refine ⟨w', hunlock, hloaded, ?_⟩
  intro hunlocked
  rw [hloaded, (hinv.unlocked hunlocked).2]

/-! ## A wallet that imports one key -/

theorem newHybridWallet_plain :
    PlainWallet examplePassphraseCrypto.toKeyCrypto (loadedSecrets newHybridWallet)
      newHybridWallet where
  fileBacked := rfl
  plain := rfl
  noRecords := rfl
  noMasterKeys := rfl
  restorable hybridID hk h := by cases h
  loaded := rfl

/-- What `EncryptWallet` gets, where `NewKeyPool` makes no keys. -/
def exampleEncryption : EncryptionInput examplePassphraseCrypto.toKeyCrypto where
  vMasterKey := List.replicate 32 7
  vchSalt := List.replicate 8 3
  nRounds := 25000
  newKeys := []
  length_vMasterKey := by decide
  length_vchSalt := by decide

def importAt (nCreateTime : ℤ) : HybridOp examplePassphraseCrypto :=
  .makeKeys (.importHybridKey {} (importRequest nCreateTime))

def importingOps (nCreateTime : ℤ) : List (HybridOp examplePassphraseCrypto) :=
  [.encryptWallet [1] exampleEncryption {}, .unlock {} [1], importAt nCreateTime]

/-- What is left of the keys when the wallet is locked and unlocked again: the result of `Unlock`
and the number of keys. -/
def relocked (w : HybridWallet) : Option (Bool × ℕ) :=
  (w.Lock.2.unlockWith examplePassphraseCrypto.toKeyCrypto {} exampleEncryption.vMasterKey).map
    fun result => (result.1, result.2.mapHybridKeys.keys.card)

/-- A creation time of 2^31 is negative in the record, and the unlocked wallet that holds the key
cannot be unlocked again. -/
theorem lock_unlock_loses_key : ((importingOps (2 ^ 31)).foldlM HybridOp.run newHybridWallet).map
      (fun w => (w.IsLocked, w.mapHybridKeys.keys.card, relocked w)) =
    some (false, 1, some (false, 0)) := by
  with_unfolding_all decide

def encryptedWallet : HybridWallet :=
  ((importingOps 1).take 1).foldl (fun w op => (op.run w).getD w) newHybridWallet

def unlockedWallet : HybridWallet :=
  ((importingOps 1).take 2).foldl (fun w op => (op.run w).getD w) newHybridWallet

def importingWallet : HybridWallet :=
  (importingOps 1).foldl (fun w op => (op.run w).getD w) newHybridWallet

theorem run_getD (h : (op.run w).isSome = true) : op.run w = some ((op.run w).getD w) := by
  obtain ⟨w', hw'⟩ := Option.isSome_iff_exists.mp h
  rw [hw', Option.getD_some]

theorem encryptedWallet_masterKey {nID : ℕ} {kMasterKey : CMasterKey}
    (hlookup : encryptedWallet.mapMasterKeys.lookup nID = some kMasterKey)
    (hopen : examplePassphraseCrypto.openMasterKey [1] kMasterKey = some vMasterKey) :
    some exampleEncryption.vMasterKey = some vMasterKey := by
  have hrecord : ∃ k, encryptedWallet.mapMasterKeys = Finmap.singleton 1 k ∧
      examplePassphraseCrypto.openMasterKey [1] k = some exampleEncryption.vMasterKey :=
    ⟨(newMasterKey examplePassphraseCrypto [1] exampleEncryption).getD
      ⟨[], [], 0, 0, []⟩, by with_unfolding_all decide, by with_unfolding_all decide⟩
  obtain ⟨k, hmaster, hk⟩ := hrecord
  have hmem : nID ∈ encryptedWallet.mapMasterKeys := Finmap.mem_of_lookup_eq_some hlookup
  rw [hmaster] at hmem hlookup
  rw [(Finmap.mem_singleton nID 1 k).mp hmem] at hlookup
  rw [← hopen, ← Option.some.inj hlookup, hk]

/-- The key comes back. -/
theorem lock_unlock_restores_key :
    importingWallet.mapHybridKeys.keys.card = 1 ∧ ∃ w',
      importingWallet.Lock.2.unlockWith examplePassphraseCrypto.toKeyCrypto {}
        exampleEncryption.vMasterKey = some (true, w') ∧
      loadedSecrets w' = loadedSecrets importingWallet := by
  have hencrypt : (HybridOp.encryptWallet [1] exampleEncryption {}).run newHybridWallet =
      some encryptedWallet := run_getD (by decide)
  have hunlock : (HybridOp.unlock {} [1] : HybridOp examplePassphraseCrypto).run encryptedWallet =
      some unlockedWallet := run_getD (by with_unfolding_all decide)
  have himport : (importAt 1).run unlockedWallet = some importingWallet :=
    run_getD (by with_unfolding_all decide)
  have hright : (HybridOp.unlock {} [1] : HybridOp examplePassphraseCrypto).Restorable
      encryptedWallet (some exampleEncryption.vMasterKey) :=
    fun _ _ _ hlookup hopen => encryptedWallet_masterKey hlookup hopen
  have htime : (importAt 1).Restorable unlockedWallet (some exampleEncryption.vMasterKey) := by
    change 0 < toInt32 1
    decide
  have hencrypted := HybridRun.start.step (.encryptWallet [1] exampleEncryption {}) trivial hencrypt
  have hrun := (hencrypted.step _ hright hunlock).step _ htime himport
  obtain ⟨w', hresult, _, hsame⟩ := lock_unlock_restores examplePassphraseCrypto newHybridWallet
    importingWallet exampleEncryption.vMasterKey _ {} newHybridWallet_plain hrun
  exact ⟨by with_unfolding_all decide, w', hresult, hsame (by with_unfolding_all decide)⟩

end Phoenixcoin.Analysis
