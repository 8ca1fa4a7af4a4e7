import Phoenixcoin.Program.Migration

/-!
# Starting on an LMDB store

`InitLMDBChainDB` and `InitLMDBWalletDBInternal` of `db.cpp`, and the rewrite of the wallet:
`RewriteWalletLMDB` and `RecoverInterruptedWalletRewrite`.
-/

set_option autoImplicit false

namespace Phoenixcoin.Program

open Lib Lib.Crash

namespace StoreProg

/-! ## The chain index -/

inductive ChainIndexStartupAction where
  | useExisting
  | migrateBdb
  | failMissing
deriving DecidableEq, Repr

def getChainIndexStartupAction (fMarkerLMDB fLMDBEmpty : Bool) : ChainIndexStartupAction :=
  if ¬ fLMDBEmpty then .useExisting
  else if fMarkerLMDB then .failMissing
  else .migrateBdb

variable (sizes : MapSizes)

/-- `InitLMDBChainDB` with the backend configured to be LMDB. -/
def initLMDBChainDB : StoreProg Bool := do
  if ¬ (← checkBackendCompatibility) then return false
  let fMarkerLMDB := decide ((← readBackendMarker) = some .lmdb)
  if fMarkerLMDB then
    if (← inspectOnDisk).fComplete then openChain sizes fMarkerLMDB
    else return false
  else openChain sizes fMarkerLMDB
where
  /-- The part from opening the environments on. -/
  openChain (sizes : MapSizes) (fMarkerLMDB : Bool) : StoreProg Bool := do
    if ¬ (← call) then return false   -- bitdb.Open, ResolveLMDBMapSizes
    if ¬ (← openEnv sizes) then return false
    if ¬ (← call) then   -- g_lmdbChainDb.Open
      closeEnv
      return false
    match ← isChainLMDBEmpty with
    | none =>
      closeEnv
      return false
    | some fLMDBEmpty =>
      match getChainIndexStartupAction fMarkerLMDB fLMDBEmpty with
      | .failMissing =>
        closeEnv
        return false
      | .migrateBdb =>
        if ← migrateToLMDB then enableChain
        else
          closeEnv
          return false
      | .useExisting => enableChain
  enableChain : StoreProg Bool := do
    if ¬ (← writeBackendMarker .lmdb) then
      closeEnv
      return false
    change fun files => { files with enabled := files.env }
    return true

/-! ## The wallet -/

inductive WalletStartupAction where
  | useExisting
  | migrateBdb
  | initNew
  | failMissing
deriving DecidableEq, Repr

def getWalletStartupAction (fMarkerLMDB fLMDBEmpty fBDBWalletExists : Bool) :
    WalletStartupAction :=
  if ¬ fLMDBEmpty then .useExisting
  else if fMarkerLMDB then .failMissing
  else if fBDBWalletExists then .migrateBdb
  else .initNew

def recoverInterruptedWalletRewrite : StoreProg Unit := do
  let _ ← writeBackendMarker.removeTmp
  let fWallet ← pathExists .main
  let fNew ← pathExists .rewrite
  let fOld ← pathExists .old
  if ¬ fWallet ∧ (fNew ∨ fOld) then
    -- prefer the compacted copy: it is complete by the time the old environment is renamed
    let _ ← rename (if fNew then .rewrite else .old) .main
  if ← pathExists .main then
    let _ ← removeAll .rewrite
    let _ ← removeAll .old

/-- `LMDB_MAX_MAPSIZE_MIB` of a 64-bit build, in bytes. -/
def lmdbMaxMapSize : ℕ := (2 ^ 64 - 1) / (1024 * 1024) * (1024 * 1024)

def getLMDBWalletMapSizeForMigration (nConfigured nSourceBytes : ℕ) : ℕ :=
  let nMargin := 16 * 1024 * 1024
  let uintmaxMax := 2 ^ 64 - 1
  let nNeeded :=
    if nSourceBytes > (uintmaxMax - nMargin) / 2 then uintmaxMax else nSourceBytes * 2 + nMargin
  let nNeeded := min nNeeded lmdbMaxMapSize
  let nNeeded :=
    if nNeeded < lmdbMaxMapSize then
      let nRound := systemPageSize - 1
      if nNeeded ≤ lmdbMaxMapSize - nRound then (nNeeded + nRound) / systemPageSize * systemPageSize
      else lmdbMaxMapSize
    else nNeeded
  max nNeeded nConfigured

/-- `file_size` of `wallet.dat`. -/
def sourceSize : StoreProg (Option ℕ) := act fun c files =>
  match c.ending with
  | .success => (some (files.bdbFile.map fun _ => c.nFileSize), files)
  | .failed => (some none, files)
  | .stops => (none, files)

/-- The map sizes for a start that may have to copy `wallet.dat`. -/
def walletMapSizes (fMarkerLMDB : Bool) (nSourceBytes : Option ℕ) : MapSizes :=
  let nMapSize :=
    match fMarkerLMDB, nSourceBytes with
    | false, some nBytes =>
      if nBytes > 0 then getLMDBWalletMapSizeForMigration sizes.nMapSize nBytes else sizes.nMapSize
    | _, _ => sizes.nMapSize
  ⟨nMapSize, max sizes.nMaxMapSize nMapSize, sizes.fAutoGrow⟩

def initLMDBWalletDBInternal : StoreProg Bool := do
  if ¬ (← checkBackendCompatibility) then return false
  recoverInterruptedWalletRewrite
  let fMarkerLMDB := decide ((← readBackendMarker) = some .lmdb)
  let fBDBWalletExists ← look (·.bdbFile.isSome)
  if fMarkerLMDB then
    if (← inspectOnDisk).fComplete then openWallet sizes fMarkerLMDB fBDBWalletExists
    else return false
  else openWallet sizes fMarkerLMDB fBDBWalletExists
where
  /-- The part from the sizes of the map on. -/
  openWallet (sizes : MapSizes) (fMarkerLMDB fBDBWalletExists : Bool) : StoreProg Bool := do
    let sizes := walletMapSizes sizes fMarkerLMDB (← sourceSize)
    if ¬ (← openEnv sizes) then return false
    if ¬ (← call) then   -- g_lmdbWalletDb.Open
      closeEnv
      return false
    match ← isWalletLMDBEmpty with
    | none =>
      closeEnv
      return false
    | some fLMDBEmpty =>
      match getWalletStartupAction fMarkerLMDB fLMDBEmpty fBDBWalletExists with
      | .failMissing =>
        closeEnv
        return false
      | .migrateBdb =>
        if ← migrateWalletToLMDB then enableWallet sizes
        else
          closeEnv
          let _ ← removeAll .main
          return false
      | .initNew => enableWallet sizes
      | .useExisting => enableWallet sizes
  enableWallet (sizes : MapSizes) : StoreProg Bool := do
    if ¬ (← writeBackendMarker .lmdb) then
      closeEnv
      return false
    change fun files => { files with enabled := some sizes }
    return true

/-! ## The rewrite -/

def reopenLMDBWallet : StoreProg Bool := do
  if ¬ (← openEnv sizes) then return false
  if ¬ (← call) then
    closeEnv
    return false
  return true

/-- `FatalWalletRewrite`: stop instead of continuing with a split wallet. -/
def fatalWalletRewrite : StoreProg Bool := exit

def rewriteWalletLMDB : StoreProg Bool := do
  match ← look (·.enabled) with
  | none => return true
  | some sizes =>
    if ¬ (← call) then return false   -- fShutdown while waiting for open handles
    let _ ← removeAll .rewrite
    let _ ← removeAll .old
    if (← look (·.env)).isNone then return false
    if ¬ (← call) then return false   -- g_lmdbWalletEnv.Sync
    if ¬ (← createDirectories .rewrite) then
      let _ ← removeAll .rewrite
      return false
    if ¬ (← copyCompact .rewrite) then
      let _ ← removeAll .rewrite
      return false
    -- from here on every failure reopens a usable environment or stops the process
    closeEnv
    if ¬ (← rename .main .old) then
      let _ ← removeAll .rewrite
      if ¬ (← reopenLMDBWallet sizes) then fatalWalletRewrite
      else return false
    else if ¬ (← rename .rewrite .main) then restoreOld sizes
    else if ¬ (← reopenLMDBWallet sizes) then
      -- the compacted copy is installed but unusable: park it
      if ¬ (← rename .main .rewrite) then fatalWalletRewrite
      else restoreOld sizes
    else removeAll .old
where
  /-- Put the old environment back and reopen it. -/
  restoreOld (sizes : MapSizes) : StoreProg Bool := do
    if ¬ (← rename .old .main) then fatalWalletRewrite
    else if ¬ (← reopenLMDBWallet sizes) then fatalWalletRewrite
    else
      let _ ← removeAll .rewrite
      return false

end StoreProg

end Phoenixcoin.Program
