import Phoenixcoin.Analysis.KeyRoundTrip
import Phoenixcoin.Lib.StampedCache
import Phoenixcoin.Program.LegacyIndex

/-!
# Lookups by legacy key ID

The index of a wallet is a cache whose stamp is the sizes of the two maps of hybrid keys. The
operations only add to the maps or have the index forgotten, and an entry that is there keeps its
EC half, so that a lookup always finds what a scan of the keys finds.
-/

set_option autoImplicit false

namespace Phoenixcoin.Analysis

open Lib Program List Option HybridWallet Table IndexedWallet

variable {C : KeyCrypto} {w w' : HybridWallet} {s : IndexedWallet} {keyID : CKeyID}

/-! ## The linear scan -/

def legacyEntries {V : Type} (C : KeyCrypto) (secpPub : V → CPubKey)
    (table : Table CHybridKeyID V) : List (CKeyID × CHybridKeyID) :=
  (sortedKeys table).filterMap fun hybridID =>
    (table.lookup hybridID).map fun key => (C.GetID (secpPub key), hybridID)

/-- The scan of the keys that are loaded, then of the records at rest. -/
def scanByLegacyID (C : KeyCrypto) (w : HybridWallet) (keyID : CKeyID) : Option CHybridKeyID :=
  (legacyEntries C CHybridKey.secpPub w.mapHybridKeys ++
    legacyEntries C (fun disk => disk.keys.secpPub) w.mapHybridKeyDisk).lookup keyID

section Scan

variable {V : Type} {secpPub : V → CPubKey} {table : Table CHybridKeyID V}

theorem lookup_legacyEntries :
    (legacyEntries C secpPub table).lookup keyID =
      CKeyStore.firstByLegacyID C secpPub keyID table := by
  unfold legacyEntries CKeyStore.firstByLegacyID
  induction sortedKeys table with
  | nil => rfl
  | cons hybridID l ih =>
    rw [filterMap_cons, find?_cons]
    cases table.lookup hybridID with
    | none => simpa using ih
    | some key =>
      by_cases hkey : C.GetID (secpPub key) = keyID
      · simp [hkey]
      · have hne : (keyID == C.GetID (secpPub key)) = false :=
          beq_eq_false_iff_ne.mpr fun h => hkey h.symm
        simp [hkey, hne, lookup_cons, ih]

theorem FindHybridKeyByLegacyID_eq_scan :
    w.toCKeyStore.FindHybridKeyByLegacyID C keyID = scanByLegacyID C w keyID := by
  rw [scanByLegacyID, lookup_append, lookup_legacyEntries, lookup_legacyEntries]
  rfl

theorem mem_legacyEntries {entry : CKeyID × CHybridKeyID} :
    entry ∈ legacyEntries C secpPub table ↔
      ∃ key, table.lookup entry.2 = some key ∧ C.GetID (secpPub key) = entry.1 := by
  rw [legacyEntries, mem_filterMap]
  constructor
  · rintro ⟨hybridID, -, hentry⟩
    obtain ⟨key, hkey, rfl⟩ := map_eq_some_iff.mp hentry
    exact ⟨key, hkey, rfl⟩
  · rintro ⟨key, hkey, hid⟩
    refine ⟨entry.2, ?_, ?_⟩
    · apply mem_sortedKeys.mpr
      simp [hkey]
    · simp [hkey, hid]

/-- A scan finds a key exactly where one is loaded or at rest. -/
theorem scanByLegacyID_isSome_iff :
    (scanByLegacyID C w keyID).isSome ↔
      (∃ hybridID hk, w.mapHybridKeys.lookup hybridID = some hk ∧ hk.GetKeyID C = keyID) ∨
      ∃ hybridID disk, w.mapHybridKeyDisk.lookup hybridID = some disk ∧
        C.GetID disk.keys.secpPub = keyID := by
  rw [scanByLegacyID, lookup_isSome_iff]
  constructor
  · rintro ⟨entry, hentry, hid⟩
    have hid : keyID = entry.1 := by simpa using hid
    rcases mem_append.mp hentry with hloaded | hrest
    · obtain ⟨hk, hlookup, hkey⟩ := mem_legacyEntries.mp hloaded
      exact Or.inl ⟨entry.2, hk, hlookup, hkey.trans hid.symm⟩
    · obtain ⟨disk, hlookup, hkey⟩ := mem_legacyEntries.mp hrest
      exact Or.inr ⟨entry.2, disk, hlookup, hkey.trans hid.symm⟩
  · rintro (⟨hybridID, hk, hlookup, hkey⟩ | ⟨hybridID, disk, hlookup, hkey⟩)
    · refine ⟨(keyID, hybridID), ?_, by simp⟩
      apply mem_append_left
      exact mem_legacyEntries.mpr ⟨hk, hlookup, hkey⟩
    · refine ⟨(keyID, hybridID), ?_, by simp⟩
      apply mem_append_right
      exact mem_legacyEntries.mpr ⟨disk, hlookup, hkey⟩

/-- A scan only sees which keys there are and their EC halves. -/
theorem legacyEntries_congr {table' : Table CHybridKeyID V}
    (h : ∀ hybridID, (table.lookup hybridID).map secpPub = (table'.lookup hybridID).map secpPub) :
    legacyEntries C secpPub table = legacyEntries C secpPub table' := by
  have hkeys : sortedKeys table = sortedKeys table' := by
    apply sortedKeys_congr
    intro hybridID
    have hsome := congrArg Option.isSome (h hybridID)
    rw [isSome_map, isSome_map] at hsome
    rw [hsome]
  rw [legacyEntries, hkeys]
  apply filterMap_congr
  intro hybridID _
  have hboth := congrArg (Option.map fun pubKey => (C.GetID pubKey, hybridID)) (h hybridID)
  rw [Option.map_map, Option.map_map] at hboth
  exact hboth

/-! ## The index -/

theorem lookup_indexKeys (index : Table CKeyID CHybridKeyID) :
    (indexKeys C secpPub table index).lookup keyID =
      (index.lookup keyID).or ((legacyEntries C secpPub table).lookup keyID) := by
  unfold indexKeys legacyEntries
  induction sortedKeys table generalizing index with
  | nil => rw [foldl_nil, filterMap_nil, lookup_nil, or_none]
  | cons hybridID l ih =>
    rw [foldl_cons, ih, filterMap_cons]
    cases table.lookup hybridID with
    | none => rfl
    | some key =>
      dsimp only [map_some]
      rw [lookup_emplace, lookup_cons]
      by_cases hkey : keyID = C.GetID (secpPub key)
      · simp [hkey]
      · have hne : (keyID == C.GetID (secpPub key)) = false := beq_eq_false_iff_ne.mpr hkey
        simp [hkey, hne]

end Scan

theorem rebuildIndex_lookup :
    (s.rebuildIndex C).mapHybridKeyByLegacyID.lookup = scanByLegacyID C s.toHybridWallet := by
  funext keyID
  show (indexKeys C _ _ (indexKeys C _ _ ∅)).lookup keyID = _
  rw [lookup_indexKeys, lookup_indexKeys, Finmap.lookup_empty, none_or, scanByLegacyID,
    lookup_append]

/-! ## The index as a cache -/

def mapSizes (w : HybridWallet) : ℕ × ℕ :=
  (w.mapHybridKeys.keys.card, w.mapHybridKeyDisk.keys.card)

def indexCache (s : IndexedWallet) : StampedCache (ℕ × ℕ) (CKeyID → Option CHybridKeyID) :=
  if s.fHybridLegacyIndexDirty then none
  else some ((s.nHybridLegacyIndexSize, s.nHybridLegacyIndexDiskSize),
    s.mapHybridKeyByLegacyID.lookup)

def SoundIndex (C : KeyCrypto) (s : IndexedWallet) : Prop :=
  StampedCache.Sound mapSizes (scanByLegacyID C) s.toHybridWallet (indexCache s)

theorem indexIsStale_iff : s.indexIsStale = false ↔
    indexCache s = some (mapSizes s.toHybridWallet, s.mapHybridKeyByLegacyID.lookup) := by
  unfold indexIsStale indexCache mapSizes
  cases s.fHybridLegacyIndexDirty <;> simp

theorem SoundIndex.find (h : SoundIndex C s) (keyID : CKeyID) :
    (s.FindHybridKeyByLegacyID C keyID).1 = scanByLegacyID C s.toHybridWallet keyID ∧
      (s.FindHybridKeyByLegacyID C keyID).2.toHybridWallet = s.toHybridWallet ∧
      SoundIndex C (s.FindHybridKeyByLegacyID C keyID).2 := by
  unfold FindHybridKeyByLegacyID
  cases hstale : s.indexIsStale with
  | true =>
    refine ⟨congrFun rebuildIndex_lookup keyID, rfl, ?_⟩
    have hcache : indexCache (s.rebuildIndex C) =
        some (mapSizes s.toHybridWallet, scanByLegacyID C s.toHybridWallet) := by
      rw [← rebuildIndex_lookup]
      rfl
    show StampedCache.Sound _ _ s.toHybridWallet (indexCache (s.rebuildIndex C))
    rw [hcache]
    exact StampedCache.sound_fresh
  | false =>
    refine ⟨?_, rfl, h⟩
    have hcache := indexIsStale_iff.mp hstale
    have hfresh := StampedCache.Sound.refresh_eq h
    rw [hcache, StampedCache.refresh, if_pos rfl, Prod.mk.injEq] at hfresh
    exact congrFun hfresh.2 keyID

/-! ## Keys that fit together -/

/-- A key is loaded under its own ID, its record at rest has its EC half, and only an encrypted
wallet with a file has records at rest. -/
structure FittingKeys (C : KeyCrypto) (w : HybridWallet) : Prop where
  derives : ∀ hybridID hk, w.mapHybridKeys.lookup hybridID = some hk →
    hk.GetHybridID C = some hybridID
  atRest : ∀ hybridID disk, w.mapHybridKeyDisk.lookup hybridID = some disk →
    w.IsCrypted = true ∧ w.fFileBacked = true
  agree : ∀ hybridID hk disk, w.mapHybridKeys.lookup hybridID = some hk →
    w.mapHybridKeyDisk.lookup hybridID = some disk → disk.keys.secpPub = hk.secpPub

structure NoticedStep (C : KeyCrypto) (w w' : HybridWallet) : Prop where
  fitting : FittingKeys C w'
  shows : Shows mapSizes (scanByLegacyID C) w w'

theorem FittingKeys.refl (h : FittingKeys C w) : NoticedStep C w w := ⟨h, Shows.refl w⟩

variable {w'' : HybridWallet}

theorem NoticedStep.trans (h : NoticedStep C w w') (h' : NoticedStep C w' w'') :
    NoticedStep C w w'' :=
  ⟨h'.fitting, h.shows.trans h'.shows⟩

structure SameHybridKeys (w w' : HybridWallet) : Prop where
  loaded : w'.mapHybridKeys = w.mapHybridKeys
  atRest : w'.mapHybridKeyDisk = w.mapHybridKeyDisk
  crypted : w.IsCrypted = true → w'.IsCrypted = true
  fileBacked : w.fFileBacked = true → w'.fFileBacked = true

theorem SameHybridKeys.refl (w : HybridWallet) : SameHybridKeys w w := ⟨rfl, rfl, id, id⟩

theorem SameHybridKeys.trans (h : SameHybridKeys w w') (h' : SameHybridKeys w' w'') :
    SameHybridKeys w w'' where
  loaded := h'.loaded.trans h.loaded
  atRest := h'.atRest.trans h.atRest
  crypted := fun hcrypted => h'.crypted (h.crypted hcrypted)
  fileBacked := fun hfile => h'.fileBacked (h.fileBacked hfile)

theorem sameHybridKeys_addLegacyKey (C : KeyCrypto) (w : HybridWallet) (key : CKey)
    (keyMeta : CKeyMetadata) (cryptedSecret : valtype) :
    SameHybridKeys w (w.addLegacyKey C key keyMeta cryptedSecret) where
  loaded := addLegacyKey_mapHybridKeys ..
  atRest := addLegacyKey_mapHybridKeyDisk ..
  crypted := fun hcrypted => (addLegacyKey_fUseCrypto ..).trans hcrypted
  fileBacked := fun hfile => (addLegacyKey_fFileBacked ..).trans hfile

theorem FittingKeys.frame (h : FittingKeys C w) (hsame : SameHybridKeys w w') :
    NoticedStep C w w' where
  fitting := {
    derives := by
      rw [hsame.loaded]
      exact h.derives
    atRest := by
      rw [hsame.atRest]
      intro hybridID disk hdisk
      obtain ⟨hcrypted, hfile⟩ := h.atRest hybridID disk hdisk
      exact ⟨hsame.crypted hcrypted, hsame.fileBacked hfile⟩
    agree := by
      rw [hsame.loaded, hsame.atRest]
      exact h.agree }
  shows := by
    apply Shows.of_view
    · unfold mapSizes
      rw [hsame.loaded, hsame.atRest]
    · unfold scanByLegacyID
      rw [hsame.loaded, hsame.atRest]

theorem shows_of_loaded (h : w.mapHybridKeys.keys.card < w'.mapHybridKeys.keys.card)
    (hdisk : w.mapHybridKeyDisk.keys.card ≤ w'.mapHybridKeyDisk.keys.card) :
    Shows mapSizes (scanByLegacyID C) w w' := by
  apply Shows.of_lt
  exact Prod.mk_lt_mk.mpr (Or.inl ⟨h, hdisk⟩)

theorem shows_of_record {hybridID : CHybridKeyID} {hk : CHybridKey} {made : CHybridKeyDisk}
    (h : FittingKeys C w) (hkey : w.mapHybridKeys.lookup hybridID = some hk)
    (hmade : made.keys.secpPub = hk.secpPub) (hloaded : w'.mapHybridKeys = w.mapHybridKeys)
    (hdisk : w'.mapHybridKeyDisk = w.mapHybridKeyDisk.insert hybridID made) :
    Shows mapSizes (scanByLegacyID C) w w' := by
  cases hold : w.mapHybridKeyDisk.lookup hybridID with
  | none =>
    -- The map at rest grows.
    apply Shows.of_lt
    unfold mapSizes
    rw [hloaded, hdisk, card_keys_insert hold]
    exact Prod.mk_lt_mk.mpr (Or.inr ⟨le_refl _, Nat.lt_succ_self _⟩)
  | some old =>
    apply Shows.of_view
    · unfold mapSizes
      rw [hloaded, hdisk]
      exact Prod.mk_le_mk.mpr ⟨le_refl _, card_keys_le_insert _ _ _⟩
    · have hsame : legacyEntries C (fun disk => disk.keys.secpPub) w.mapHybridKeyDisk =
          legacyEntries C (fun disk => disk.keys.secpPub) w'.mapHybridKeyDisk := by
        apply legacyEntries_congr
        intro other
        rw [hdisk, lookup_insert_ite]
        by_cases hother : other = hybridID
        · rw [if_pos hother, hother, hold, map_some, map_some, hmade,
            h.agree hybridID hk old hkey hold]
        · rw [if_neg hother]
      unfold scanByLegacyID
      rw [hsame, hloaded]

/-! ## A key joins the wallet -/

section Joins

variable {hybridID : CHybridKeyID} {hk : CHybridKey} {disk : Option CHybridKeyDisk}

theorem lookup_addHybridKey (k : CHybridKeyID) :
    (w.addHybridKey hybridID hk disk).mapHybridKeys.lookup k =
      (w.mapHybridKeys.lookup k).or (if k = hybridID then some hk else none) :=
  lookup_emplace hybridID k hk w.mapHybridKeys

/-- The record of a key that joins, where it is stored. -/
theorem lookup_addHybridKey_disk (k : CHybridKeyID) :
    (w.addHybridKey hybridID hk disk).mapHybridKeyDisk.lookup k =
      if k = hybridID ∧ w.IsCrypted = true then disk.or (w.mapHybridKeyDisk.lookup k)
      else w.mapHybridKeyDisk.lookup k := by
  unfold addHybridKey
  cases disk with
  | none => simp
  | some made =>
    by_cases hcrypted : w.IsCrypted = true
    · simp only [hcrypted, if_true, and_true, some_or]
      exact lookup_insert_ite k hybridID made w.mapHybridKeyDisk
    · simp [hcrypted]

/-- What has to be known of a key that joins the wallet `w`. -/
structure Joiner (C : KeyCrypto) (w : HybridWallet) (hybridID : CHybridKeyID) (hk : CHybridKey)
    (disk : Option CHybridKeyDisk) : Prop where
  derives : hk.GetHybridID C = some hybridID
  record : ∀ made, disk = some made → made.keys.secpPub = hk.secpPub ∧ w.fFileBacked = true
  stored : w.IsCrypted = true → w.fFileBacked = true → disk ≠ none
  same : ∀ loaded, w.mapHybridKeys.lookup hybridID = some loaded → loaded.secpPub = hk.secpPub

section

variable (h : FittingKeys C w) (hjoin : Joiner C w hybridID hk disk)
include h hjoin

theorem Joiner.agree {k : CHybridKeyID} {loaded : CHybridKey} {record : CHybridKeyDisk}
    (hloaded : (w.addHybridKey hybridID hk disk).mapHybridKeys.lookup k = some loaded)
    (hrecord : (w.addHybridKey hybridID hk disk).mapHybridKeyDisk.lookup k = some record) :
    record.keys.secpPub = loaded.secpPub := by
  rw [lookup_addHybridKey] at hloaded
  rw [lookup_addHybridKey_disk] at hrecord
  by_cases hk' : k = hybridID
  · subst hk'
    rw [if_pos rfl] at hloaded
    have hsecp : loaded.secpPub = hk.secpPub := by
      cases hold : w.mapHybridKeys.lookup k with
      | none =>
        rw [hold] at hloaded
        rw [some.inj hloaded]
      | some old =>
        rw [hold] at hloaded
        rw [← some.inj hloaded]
        exact hjoin.same old hold
    rw [hsecp]
    -- A wallet that keeps records keeps one of the new key.
    have hcrypted : w.IsCrypted = true ∧ disk ≠ none := by
      by_cases hcrypted : w.IsCrypted = true
      · refine ⟨hcrypted, ?_⟩
        intro hnone
        rw [if_pos ⟨rfl, hcrypted⟩, hnone] at hrecord
        exact hjoin.stored hcrypted (h.atRest k record hrecord).2 hnone
      · rw [if_neg fun hboth => hcrypted hboth.2] at hrecord
        exact absurd (h.atRest k record hrecord).1 hcrypted
    obtain ⟨made, hmade⟩ := ne_none_iff_exists'.mp hcrypted.2
    rw [if_pos ⟨rfl, hcrypted.1⟩, hmade] at hrecord
    rw [← some.inj hrecord]
    exact (hjoin.record made hmade).1
  · rw [if_neg hk', or_none] at hloaded
    rw [if_neg fun hboth => hk' hboth.1] at hrecord
    exact h.agree k loaded record hloaded hrecord

theorem Joiner.fitting : FittingKeys C (w.addHybridKey hybridID hk disk) where
  derives := by
    intro k loaded hloaded
    rw [lookup_addHybridKey] at hloaded
    rcases or_eq_some_iff.mp hloaded with hold | ⟨-, hnew⟩
    · exact h.derives k loaded hold
    · by_cases hk' : k = hybridID
      · rw [if_pos hk'] at hnew
        rw [← some.inj hnew, hk']
        exact hjoin.derives
      · rw [if_neg hk'] at hnew
        cases hnew
  atRest := by
    intro k record hrecord
    rw [lookup_addHybridKey_disk] at hrecord
    by_cases hstored : k = hybridID ∧ w.IsCrypted = true
    · rw [if_pos hstored] at hrecord
      rcases or_eq_some_iff.mp hrecord with hmade | ⟨-, hold⟩
      · exact ⟨hstored.2, (hjoin.record record hmade).2⟩
      · exact h.atRest k record hold
    · rw [if_neg hstored] at hrecord
      exact h.atRest k record hrecord
  agree _ _ _ hloaded hrecord := hjoin.agree h hloaded hrecord

theorem Joiner.shows : Shows mapSizes (scanByLegacyID C) w (w.addHybridKey hybridID hk disk) := by
  cases hold : w.mapHybridKeys.lookup hybridID with
  | none =>
    apply shows_of_loaded
    · have hinsert : (w.addHybridKey hybridID hk disk).mapHybridKeys =
          w.mapHybridKeys.insert hybridID hk := by
        show emplace hybridID hk w.mapHybridKeys = _
        rw [emplace, hold]
        rfl
      rw [hinsert, card_keys_insert hold]
      exact Nat.lt_succ_self _
    · unfold addHybridKey
      cases disk with
      | none => exact le_refl _
      | some made =>
        split_ifs
        · exact card_keys_le_insert _ _ _
        · exact le_refl _
  | some loaded =>
    have hsame : (w.addHybridKey hybridID hk disk).mapHybridKeys = w.mapHybridKeys := by
      show emplace hybridID hk w.mapHybridKeys = _
      rw [emplace, hold]
      rfl
    cases disk with
    | none => exact (h.frame ⟨hsame, rfl, id, id⟩).shows
    | some made =>
      by_cases hcrypted : w.IsCrypted = true
      · apply shows_of_record h hold ?_ hsame
        · unfold addHybridKey
          dsimp only
          rw [if_pos hcrypted]
        · rw [hjoin.same loaded hold]
          exact (hjoin.record made rfl).1
      · have hdisk : (w.addHybridKey hybridID hk (some made)).mapHybridKeyDisk =
            w.mapHybridKeyDisk := by
          unfold addHybridKey
          dsimp only
          rw [if_neg hcrypted]
        exact (h.frame ⟨hsame, hdisk, id, id⟩).shows

theorem Joiner.step : NoticedStep C w (w.addHybridKey hybridID hk disk) :=
  ⟨hjoin.fitting h, hjoin.shows h⟩

end

end Joins

/-! ## Keys that are decrypted -/

section Decryption

variable {vMasterKey : CKeyingMaterial} {hybridID : CHybridKeyID} {mem : CHybridKey}
  {disk enc : CHybridKeyDisk}

theorem secpPub_of_materialize (h : disk.materialize C vMasterKey = some mem) :
    mem.secpPub = disk.keys.secpPub := by
  obtain ⟨keys, -, h⟩ := bind_eq_some_iff.mp h
  obtain ⟨key, -, h⟩ := bind_eq_some_iff.mp h
  obtain ⟨pkey, -, h⟩ := bind_eq_some_iff.mp h
  dsimp only at h
  split at h
  · rw [← some.inj h]
  · cases h

theorem secpPub_of_FromMemoryEncrypted
    (h : CHybridKeyDiskRecord.FromMemoryEncrypted C mem vMasterKey = some enc) :
    enc.keys.secpPub = mem.secpPub := by
  obtain ⟨pkey, crypted, -, -, rfl⟩ := FromMemoryEncrypted_eq_some h
  rfl

/-- A key is loaded from its record. -/
theorem FittingKeys.load (h : FittingKeys C w) (hnew : w.mapHybridKeys.lookup hybridID = none)
    (hid : mem.GetHybridID C = some hybridID)
    (hdisk : w.mapHybridKeyDisk.lookup hybridID = some disk)
    (hmem : mem.secpPub = disk.keys.secpPub) (unused : Finset CHybridKeyID) :
    NoticedStep C w { w with
      mapHybridKeys := w.mapHybridKeys.insert hybridID mem
      setUnusedHybridKeys := unused } where
  fitting := {
    derives := by
      intro k loaded hloaded
      rw [lookup_insert_ite] at hloaded
      by_cases hk : k = hybridID
      · rw [if_pos hk] at hloaded
        rw [← some.inj hloaded, hk]
        exact hid
      · rw [if_neg hk] at hloaded
        exact h.derives k loaded hloaded
    atRest := h.atRest
    agree := by
      intro k loaded record hloaded hrecord
      rw [lookup_insert_ite] at hloaded
      by_cases hk : k = hybridID
      · subst hk
        rw [if_pos rfl] at hloaded
        rw [hdisk] at hrecord
        rw [← some.inj hloaded, ← some.inj hrecord, hmem]
      · rw [if_neg hk] at hloaded
        exact h.agree k loaded record hloaded hrecord }
  shows := by
    apply shows_of_loaded
    · rw [card_keys_insert hnew]
      exact Nat.lt_succ_self _
    · exact le_refl _

theorem FittingKeys.rewriteRecord (h : FittingKeys C w)
    (hkey : w.mapHybridKeys.lookup hybridID = some mem) (henc : enc.keys.secpPub = mem.secpPub)
    (hstate : w.IsCrypted = true ∧ w.fFileBacked = true) (db : WalletRecords) :
    NoticedStep C w { w with
      mapHybridKeyDisk := w.mapHybridKeyDisk.insert hybridID enc
      db := db } where
  fitting := {
    derives := h.derives
    atRest := fun _ _ _ => hstate
    agree := by
      intro k loaded record hloaded hrecord
      rw [lookup_insert_ite] at hrecord
      by_cases hk : k = hybridID
      · subst hk
        rw [if_pos rfl] at hrecord
        rw [hkey] at hloaded
        rw [← some.inj hloaded, ← some.inj hrecord, henc]
      · rw [if_neg hk] at hrecord
        exact h.agree k loaded record hloaded hrecord }
  shows := shows_of_record h hkey henc rfl rfl

/-- One round of `DecryptHybridKeys`. -/
theorem FittingKeys.decryptHybridKey (h : FittingKeys C w) (o : WalletDbOutcome)
    (vMasterKey : CKeyingMaterial) (fOk : Bool) (hybridID : CHybridKeyID) :
    NoticedStep C w (HybridWallet.decryptHybridKey C o vMasterKey (fOk, w) hybridID).2 := by
  unfold HybridWallet.decryptHybridKey
  dsimp only
  split
  · exact h.refl
  · next disk hdisk =>
    split
    · exact h.refl
    · next hnew =>
      split
      · exact h.refl
      · next mem hmem =>
        split
        · exact h.refl
        · next hid =>
          have hmem : disk.materialize C vMasterKey = some mem := by
            split at hmem
            · exact hmem
            · cases hmem
          have hload := h.load (by simpa using hnew) (not_not.mp hid) hdisk
            (secpPub_of_materialize hmem)
            (if hybridID ∈ w.setUsedHybridKeys then w.setUnusedHybridKeys
              else insert hybridID w.setUnusedHybridKeys)
          split
          · exact hload
          · split
            · exact hload
            · next enc henc =>
              split
              · exact hload
              · next db hdb =>
                have hloaded : (w.mapHybridKeys.insert hybridID mem).lookup hybridID = some mem :=
                  Finmap.lookup_insert w.mapHybridKeys
                apply hload.trans
                exact hload.fitting.rewriteRecord hloaded (secpPub_of_FromMemoryEncrypted henc)
                  (h.atRest hybridID disk hdisk) db

theorem FittingKeys.decryptHybridKeys (h : FittingKeys C w) (o : WalletDbOutcome)
    (vMasterKey : CKeyingMaterial) (l : List CHybridKeyID) (fOk : Bool) :
    NoticedStep C w (l.foldl (HybridWallet.decryptHybridKey C o vMasterKey) (fOk, w)).2 := by
  induction l generalizing w fOk with
  | nil => exact h.refl
  | cons hybridID l ih =>
    have hstep := h.decryptHybridKey o vMasterKey fOk hybridID
    exact hstep.trans (ih hstep.fitting _)

end Decryption

/-! ## Keys that are made -/

section Making

variable {o : WalletDbOutcome}

/-- The keys that an operation makes around a new ML-DSA key. -/
def Generates (w : HybridWallet) : HybridKeyOp C → CHybridKey → Prop
  | .newHybridKeyPool _ fresh, hk => ∃ f, some f ∈ fresh ∧ hk = GenerateHybridKey C f
  | .ensureHybridKeyPool _ nTarget fresh, hk =>
    ∃ f, some f ∈ (List.range (nTarget - w.mapHybridKeys.keys.card)).map fresh ∧
      hk = GenerateHybridKey C f
  | .ensureHybridKey _ pkey nTime keyID, hk => ∃ p key, pkey = some p ∧
      w.toCKeyStore.GetKey C keyID = some key ∧ hk = hybridKeyOf key p.val nTime
  | .importHybridKey _ _, _ => False

/-- No two keys with different EC halves have the same hash: neither two of those that an operation
makes, nor one of them and one that is loaded. An import looks for such a key by itself. -/
def CollisionFree (w : HybridWallet) (op : HybridKeyOp C) : Prop :=
  ∀ hk other, Generates w op hk →
    (Generates w op other ∨ ∃ hybridID, w.mapHybridKeys.lookup hybridID = some other) →
    hk.GetHybridID C = other.GetHybridID C → other.secpPub = hk.secpPub

variable {hk : CHybridKey} {db : WalletRecords} {disk : Option CHybridKeyDisk}
  {hybridID : CHybridKeyID}

theorem secpPub_of_MakeHybridKeyDisk {disk : CHybridKeyDisk}
    (h : w.MakeHybridKeyDisk C hk = some disk) : disk.keys.secpPub = hk.secpPub := by
  unfold MakeHybridKeyDisk at h
  split at h
  · split at h
    · cases h
    · exact secpPub_of_FromMemoryEncrypted h
  · obtain ⟨pkey, -, rfl⟩ := map_eq_some_iff.mp h
    rfl

/-- One key of a pool is registered. -/
theorem FittingKeys.registerPoolKey (h : FittingKeys C w) {entry : StagedHybridKey}
    (hjoining : Joining C w entry) (fUnused : Bool)
    (hsame : ∀ loaded, w.mapHybridKeys.lookup entry.hybridID = some loaded →
      loaded.secpPub = entry.key.secpPub) :
    NoticedStep C w (HybridWallet.registerPoolKey C fUnused w entry) := by
  have hlegacy (w₁ : HybridWallet) (hw₁ : w₁ = if entry.fPersistKey then
      w.addLegacyKey C entry.ecdsa entry.metadata entry.cryptedSecret else w) :
      SameHybridKeys w w₁ := by
    subst hw₁
    split_ifs
    · exact sameHybridKeys_addLegacyKey ..
    · exact SameHybridKeys.refl w
  unfold HybridWallet.registerPoolKey
  generalize hw₁ : (if entry.fPersistKey then
    w.addLegacyKey C entry.ecdsa entry.metadata entry.cryptedSecret else w) = w₁
  have hfirst := h.frame (hlegacy w₁ hw₁.symm)
  have hjoin : Joiner C w₁ entry.hybridID entry.key
      (if w₁.fFileBacked then some entry.disk else none) := by
    refine ⟨hjoining.storable.derives, ?_, ?_, ?_⟩
    · intro made hmade
      by_cases hfile : w₁.fFileBacked = true
      · rw [if_pos hfile] at hmade
        rw [← some.inj hmade]
        exact ⟨secpPub_of_MakeHybridKeyDisk hjoining.disk, hfile⟩
      · rw [if_neg hfile] at hmade
        cases hmade
    · intro _ hfile
      rw [if_pos hfile]
      exact some_ne_none _
    · rw [(hlegacy w₁ hw₁.symm).loaded]
      exact hsame
  have hsecond := hjoin.step hfirst.fitting
  exact (hfirst.trans hsecond).trans (hsecond.fitting.frame ⟨rfl, rfl, id, id⟩)

theorem FittingKeys.registerPool (h : FittingKeys C w) {staged : List StagedHybridKey}
    (hjoining : ∀ entry ∈ staged, Joining C w entry) (fUnused : Bool)
    (hloaded : ∀ entry ∈ staged, ∀ loaded, w.mapHybridKeys.lookup entry.hybridID = some loaded →
      loaded.secpPub = entry.key.secpPub)
    (hstaged : ∀ entry ∈ staged, ∀ other ∈ staged, entry.hybridID = other.hybridID →
      other.key.secpPub = entry.key.secpPub) :
    NoticedStep C w (staged.foldl (HybridWallet.registerPoolKey C fUnused) w) := by
  induction staged generalizing w with
  | nil => exact h.refl
  | cons first staged ih =>
    have hstep := h.registerPoolKey (hjoining first mem_cons_self) fUnused
      (hloaded first mem_cons_self)
    apply hstep.trans
    apply ih hstep.fitting
    · intro entry hentry
      exact (hjoining entry (mem_cons_of_mem _ hentry)).registerPoolKey fUnused
    · intro entry hentry loaded hlookup
      rw [registerPoolKey_mapHybridKeys] at hlookup
      rcases lookup_emplace_eq_some hlookup with hold | ⟨hid, hkey⟩
      · exact hloaded entry (mem_cons_of_mem _ hentry) loaded hold
      · rw [hkey]
        exact hstaged entry (mem_cons_of_mem _ hentry) first mem_cons_self hid
    · intro entry hentry other hother
      exact hstaged entry (mem_cons_of_mem _ hentry) other (mem_cons_of_mem _ hother)

/-- A pool is made, all of its keys or none. -/
theorem FittingKeys.makePool (h : FittingKeys C w) {fAlwaysPersist fUnused : Bool}
    {fresh : List (Option (FreshKey C))}
    (hmake : w.makePool C o fAlwaysPersist fUnused fresh = some w')
    (hfree : ∀ f other, some f ∈ fresh →
      ((∃ g, some g ∈ fresh ∧ other = GenerateHybridKey C g) ∨
        ∃ hybridID, w.mapHybridKeys.lookup hybridID = some other) →
      (GenerateHybridKey C f).GetHybridID C = other.GetHybridID C →
      other.secpPub = (GenerateHybridKey C f).secpPub) :
    NoticedStep C w w' := by
  obtain ⟨staged, db, hstaged, -, rfl⟩ := makePool_eq_some hmake
  have hframe : NoticedStep C w { w with db := db } := h.frame ⟨rfl, rfl, id, id⟩
  apply hframe.trans
  apply hframe.fitting.registerPool
  · intro entry hentry
    obtain ⟨f, -, hjoining, -⟩ := exists_fresh_of_mem hstaged hentry
    exact hjoining.withDb db
  · intro entry hentry loaded hloaded
    obtain ⟨f, hf, hjoining, hkey, -⟩ := exists_fresh_of_mem hstaged hentry
    rw [hkey]
    apply hfree f loaded hf (Or.inr ⟨entry.hybridID, hloaded⟩)
    rw [← hkey, hjoining.storable.derives, h.derives entry.hybridID loaded hloaded]
  · intro entry hentry other hother hid
    obtain ⟨f, hf, hjoining, hkey, -⟩ := exists_fresh_of_mem hstaged hentry
    obtain ⟨g, hg, hjoining', hkey', -⟩ := exists_fresh_of_mem hstaged hother
    rw [hkey, hkey']
    apply hfree f _ hf (Or.inl ⟨g, hg, rfl⟩)
    rw [← hkey, ← hkey', hjoining.storable.derives, hjoining'.storable.derives, hid]

/-- A key that `EnsureHybridKey` makes can join. -/
theorem joiner_of_ensured {key : CKey} {pkey : EVP_PKEY} {nTime : ℤ}
    (hmade : EnsuredKey C o w keyID key pkey nTime hybridID disk db)
    (hsame : ∀ loaded, w.mapHybridKeys.lookup hybridID = some loaded →
      loaded.secpPub = (hybridKeyOf key pkey nTime).secpPub) :
    Joiner C { w with db := db } hybridID (hybridKeyOf key pkey nTime) disk := by
  have hpersist := hmade.persist
  by_cases hfile : w.fFileBacked = true
  · obtain ⟨made, -, rfl, hrecord, -, -⟩ := persistHybridKey_eq_some hfile
      (isLocked_of_GetKey hmade.found) hpersist
    refine ⟨hmade.derives, ?_, ?_, hsame⟩
    · intro other hother
      rw [← some.inj hother]
      exact ⟨secpPub_of_MakeHybridKeyDisk hrecord, hfile⟩
    · intro _ _
      exact some_ne_none made
  · rw [persistHybridKey, if_neg fun hboth => hfile hboth.1] at hpersist
    cases hpersist
    exact ⟨hmade.derives, fun other hother => absurd hother.symm (some_ne_none other),
      fun _ hbacked => absurd hbacked hfile, hsame⟩

/-- A key that is imported can join. -/
theorem joiner_of_imported {r : HybridImport} {ecdsa : CKey} {cryptedSecret : valtype}
    (hmade : ImportedKey C o w r hybridID hk ecdsa cryptedSecret disk db)
    (hsame : SameHybridKeys w w') (hbacked : w'.fFileBacked = w.fFileBacked) :
    Joiner C w' hybridID hk disk := by
  have hnew (loaded : CHybridKey) (hloaded : w'.mapHybridKeys.lookup hybridID = some loaded) :
      loaded.secpPub = hk.secpPub := by
    rw [hsame.loaded, hmade.isNew] at hloaded
    cases hloaded
  by_cases hfile : w.fFileBacked = true
  · obtain ⟨made, rfl, hrecord, -⟩ := persistImport_eq_ok hfile hmade.persist
    refine ⟨hmade.derives, ?_, ?_, hnew⟩
    · intro other hother
      rw [← some.inj hother]
      exact ⟨secpPub_of_MakeHybridKeyDisk hrecord, hbacked.trans hfile⟩
    · intro _ _
      exact some_ne_none made
  · have hpersist := hmade.persist
    rw [persistImport, if_neg hfile] at hpersist
    cases hpersist
    refine ⟨hmade.derives, fun other hother => absurd hother.symm (some_ne_none other), ?_, hnew⟩
    intro _ hbacked'
    exact absurd (hbacked.symm.trans hbacked') hfile

/-- The operations that make keys. -/
theorem FittingKeys.makes (h : FittingKeys C w) {op : HybridKeyOp C} (hfree : CollisionFree w op)
    (hmakes : op.Makes w w') : NoticedStep C w w' := by
  cases op with
  | newHybridKeyPool o fresh =>
    apply h.makePool hmakes.2
    intro f other hf hother hid
    exact hfree _ other ⟨f, hf, rfl⟩ hother hid
  | ensureHybridKeyPool o nTarget fresh =>
    apply h.makePool hmakes.2
    intro f other hf hother hid
    exact hfree _ other ⟨f, hf, rfl⟩ hother hid
  | ensureHybridKey o pkey nTime keyID =>
    obtain ⟨key, p, hybridID, disk, db, hpkey, hmade, rfl⟩ := hmakes
    have hframe : NoticedStep C w { w with db := db } := h.frame ⟨rfl, rfl, id, id⟩
    apply hframe.trans
    apply (joiner_of_ensured hmade ?_).step hframe.fitting
    intro loaded hloaded
    apply hfree _ loaded ⟨p, key, hpkey, hmade.found, rfl⟩ (Or.inr ⟨hybridID, hloaded⟩)
    rw [hmade.derives, h.derives hybridID loaded hloaded]
  | importHybridKey o r =>
    obtain ⟨hybridID, hk, ecdsa, cryptedSecret, disk, db, hmade, rfl⟩ := hmakes
    unfold registerImport
    dsimp only
    generalize hw₁ : (if (! w.HaveKey (C.GetID ecdsa.vchPubKey)) = true then
      ({ w with db := db } : HybridWallet).addLegacyKey C ecdsa (.ofTime hk.nCreateTime)
        cryptedSecret else { w with db := db }) = w₁
    have hkept : w₁.mapHybridKeys = w.mapHybridKeys ∧
        w₁.mapHybridKeyDisk = w.mapHybridKeyDisk ∧ w₁.fUseCrypto = w.fUseCrypto ∧
        w₁.fFileBacked = w.fFileBacked := by
      rw [← hw₁]
      split_ifs <;> simp
    have hsame : SameHybridKeys w w₁ :=
      ⟨hkept.1, hkept.2.1, hkept.2.2.1.trans, hkept.2.2.2.trans⟩
    have hframe := h.frame hsame
    have hjoin := (joiner_of_imported hmade hsame hkept.2.2.2).step hframe.fitting
    exact (hframe.trans hjoin).trans (hjoin.fitting.frame ⟨rfl, rfl, id, id⟩)

end Making

end Phoenixcoin.Analysis
