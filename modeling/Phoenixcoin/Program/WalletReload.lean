import Mathlib.Order.Lattice.Nat
import Phoenixcoin.Program.WalletEncryption

/-!
# The keys after a restart

What `CWalletDB::LoadWallet` and `LoadHybridKeys` make of the records that keys have. A key record
that cannot be read stops the start. The layout of hybrid records before version 2 is left out.
-/

set_option autoImplicit false

namespace Phoenixcoin.Program

open Lib

/-! ## The order of the records -/

/-- Bytes in the order of a scan. -/
def bytesLe (a b : valtype) : Prop := a.map UInt8.toNat ≤ b.map UInt8.toNat

instance : DecidableRel bytesLe := fun a b =>
  inferInstanceAs (Decidable (a.map UInt8.toNat ≤ b.map UInt8.toNat))

instance : IsTrans valtype bytesLe := ⟨fun _ _ _ h h' => le_trans h h'⟩

instance : Std.Antisymm bytesLe :=
  ⟨fun _ _ h h' => List.map_injective_iff.mpr (fun _ _ => UInt8.toNat_inj.mp) (le_antisymm h h')⟩

instance : Std.Total bytesLe := ⟨fun _ _ => le_total _ _⟩

namespace HybridWallet

variable (C : KeyCrypto)

/-! ## Key records -/

/-- A wallet with a file before it is loaded. -/
def blank (db : WalletRecords) : HybridWallet where
  fUseCrypto := false
  vMasterKey := []
  mapKeys := ∅
  mapCryptedKeys := ∅
  mapScripts := ∅
  setWatchOnly := ∅
  mapHybridKeys := ∅
  mapHybridKeyDisk := ∅
  fFileBacked := true
  mapKeyMetadata := ∅
  setUsedHybridKeys := ∅
  setUnusedHybridKeys := ∅
  mapHybridAddressBook := ∅
  mapMasterKeys := ∅
  nMasterKeyMaxID := 0
  pwalletdbEncryption := false
  setKeyPool := ∅
  mapWallet := ∅
  db := db

variable (w : HybridWallet)

/-- `LoadKey`; an encrypted wallet is locked while it is loaded, and takes no key. -/
def LoadKey (key : CKey) : Option HybridWallet :=
  if w.IsCrypted then none
  else some { w with
    mapKeys := w.mapKeys.insert (C.GetID key.vchPubKey) (key.vchSecret, key.fCompressedPubKey) }

/-- A record "key" or "wkey". -/
def readKey (vchPubKey : CPubKey) (vchPrivKey : CPrivKey) :
    Option HybridWallet :=
  (C.SetPrivKey vchPrivKey).bind fun key =>
    if key.vchPubKey ≠ vchPubKey then none else w.LoadKey C key

/-- `LoadCryptedKey`, which makes the wallet an encrypted one if it has no plaintext keys. -/
def LoadCryptedKey (vchPubKey : CPubKey) (vchCryptedSecret : valtype) :
    Option HybridWallet :=
  if ¬ w.IsCrypted ∧ w.mapKeys ≠ ∅ then none
  else some { w with
    fUseCrypto := true
    mapCryptedKeys := w.mapCryptedKeys.insert (C.GetID vchPubKey) (vchPubKey, vchCryptedSecret) }

/-- All records of one type. -/
def readRecords {V : Type} (table : Table CPubKey V)
    (read : HybridWallet → CPubKey → V → Option HybridWallet) (w : HybridWallet) :
    Option HybridWallet :=
  (table.keys.sort bytesLe).foldlM
    (fun w vchPubKey => (table.lookup vchPubKey).bind (read w vchPubKey)) w

/-- The creation times of the keys: those of the pool, then those that are stored. -/
def readMetadata : HybridWallet :=
  let pool := (Table.sortedKeys w.db.pool).filterMap w.db.pool.lookup
  let times := pool.foldl (fun times keypool =>
    emplace (C.GetID keypool.vchPubKey) (.ofTime keypool.nTime) times) w.mapKeyMetadata
  { w with
    mapKeyMetadata := (w.db.keymeta.keys.sort bytesLe).foldl (fun times vchPubKey =>
      match w.db.keymeta.lookup vchPubKey with
      | none => times
      | some keyMeta => times.insert (C.GetID vchPubKey) keyMeta) times }

/-- What `CWalletDB::LoadWallet` reads. -/
def loadRecords (db : WalletRecords) : Option HybridWallet := do
  let w ← readRecords db.key (readKey C) (blank db)
  let w ← readRecords db.ckey (LoadCryptedKey C) w
  let w ← readRecords db.wkey (readKey C) w
  some (readMetadata C { w with
    mapMasterKeys := db.mkey
    nMasterKeyMaxID := db.mkey.keys.sup id
    setKeyPool := db.pool.keys
    mapHybridAddressBook := db.hybaddr })

/-! ## Hybrid records -/

def LoadHybridKey (disk : CHybridKeyDisk) : HybridWallet :=
  if (disk.nVersion ≠ HYBRIDKEY_DISK_VERSION ∧
      disk.nVersion ≠ HYBRIDKEY_DISK_VERSION_ENCRYPTED) ∨
      (disk.IsEncrypted ∧ ¬ w.IsCrypted) ∨ ¬ disk.CheckChecksum C ∨
      (disk.IsEncrypted ∧ disk.keys.vchCryptedPrivate = []) ∨
      (¬ disk.IsEncrypted ∧ disk.keys.mldsaPrivKey = []) then w
  else
    match disk.materialize C w.vMasterKey with
    | none => w
    | some mem =>
      match mem.GetHybridID C with
      | none => w
      | some hybridID => { w with mapHybridKeys := emplace hybridID mem w.mapHybridKeys }

/-- A record that an encrypted wallet keeps until it is unlocked. -/
def cacheHybridKey (hybridID : CHybridKeyID) : HybridWallet :=
  match w.db.hyb.lookup hybridID with
  | none => w
  | some disk =>
    if disk.CheckChecksum C then
      { w with mapHybridKeyDisk := w.mapHybridKeyDisk.insert hybridID disk }
    else w

def LoadHybridKeys : HybridWallet :=
  let w : HybridWallet := { w with setUsedHybridKeys := w.db.hybused.getD ∅ }
  if w.IsCrypted then (Table.sortedKeys w.db.hyb).foldl (cacheHybridKey C) w
  else ((Table.sortedKeys w.db.hyb).filterMap w.db.hyb.lookup).foldl (LoadHybridKey C) w

/-- The keys that a start loads from the database; none where it reports a corrupt wallet. -/
def loadKeys (db : WalletRecords) : Option HybridWallet :=
  (loadRecords C db).map (LoadHybridKeys C)

end HybridWallet

end Phoenixcoin.Program
