import Phoenixcoin.Lib.Table
import Mathlib.Data.Finset.Sort

/-!
# The key pool of the wallet

`NewKeyPool`, `TopUpKeyPool`, `ReserveKeyFromKeyPool`, `KeepKey`, `ReturnKey` and
`GetKeyFromPool` of `wallet.cpp`, over the part of the wallet that they use. The `n`-th key
that the wallet generates is `newKey n`, and `-keypool` is the argument `nKeyPoolArg`.
-/

set_option autoImplicit false

namespace Phoenixcoin.Program

open Lib

variable {K : Type} [DecidableEq K]

/-- A key pool record. -/
structure CKeyPool (K : Type) where
  nTime : ℤ
  vchPubKey : K
deriving DecidableEq

/-- The wallet as the key pool sees it. `pool` holds the pool records of the wallet
database, and `keys` the public keys of the keystore. -/
structure KeyPoolWallet (K : Type) where
  setKeyPool : Finset ℕ
  pool : Table ℕ (CKeyPool K)
  keys : List K
  vchDefaultKey : Option K
  fLocked : Bool
  nNewKeys : ℕ

/-- The exceptions that the operations throw. -/
inductive KeyPoolError where
  | topUpFailed
  | readFailed
  | unknownKey
  | addKeyFailed
deriving DecidableEq, Repr

def KeyPoolError.what : KeyPoolError → String
  | .topUpFailed => "TopUpKeyPool() : writing generated key failed"
  | .readFailed => "ReserveKeyFromKeyPool() : read failed"
  | .unknownKey => "ReserveKeyFromKeyPool() : unknown key in key pool"
  | .addKeyFailed => "CWallet::GenerateNewKey() : AddKey() failed"

/-- Which database operations of one call succeed, and the time of the call. -/
structure KeyPoolOutcome where
  clearBegin : Bool := true
  clearErase : ℕ → Bool := fun _ => true
  clearCommit : Bool := true
  refillBegin : Bool := true
  stageKey : ℕ → Bool := fun _ => true
  writePool : ℕ → Bool := fun _ => true
  refillCommit : Bool := true
  readPool : Bool := true
  erasePool : Bool := true
  addKey : Bool := true
  nTime : ℤ := 0

namespace KeyPoolWallet

variable (newKey : ℕ → K) (nKeyPoolArg : ℤ) (o : KeyPoolOutcome)

/-- The loop that stages `n` new keys for the indices from `nIndex` on; `none` when a key or
its pool record cannot be written. -/
def stageKeys : ℕ → ℕ → ℕ → Option (List (ℕ × K))
  | 0, _, _ => some []
  | n + 1, nIndex, nKey =>
    if o.stageKey nIndex && o.writePool nIndex then
      (stageKeys n (nIndex + 1) (nKey + 1)).map fun staged => (nIndex, newKey nKey) :: staged
    else none

variable (w : KeyPoolWallet K)

/-- A staged key becomes visible: its pool record, its index and its key. -/
def addStaged (entry : ℕ × K) : KeyPoolWallet K :=
  { w with
    pool := w.pool.insert entry.1 ⟨o.nTime, entry.2⟩
    setKeyPool := insert entry.1 w.setKeyPool
    keys := entry.2 :: w.keys
    nNewKeys := w.nNewKeys + 1 }

/-- The first part of `NewKeyPool`: erase the old entries. -/
def clearKeyPool : Option (KeyPoolWallet K) :=
  if o.clearBegin ∧ (∀ nIndex ∈ w.setKeyPool, o.clearErase nIndex = true) ∧ o.clearCommit then
    some { w with
      pool := w.setKeyPool.sort.foldl (fun pool nIndex => pool.erase nIndex) w.pool
      setKeyPool := ∅ }
  else none

/-- Stage `n` keys in one transaction and commit it: `none` when a write fails, and the
wallet is unchanged when the transaction cannot begin or commit. -/
def refillKeyPool (n nIndex : ℕ) (w : KeyPoolWallet K) : Option (Bool × KeyPoolWallet K) :=
  if ¬ o.refillBegin then some (false, w)
  else
    (stageKeys newKey o n nIndex w.nNewKeys).map fun staged =>
      if o.refillCommit then (true, staged.foldl (addStaged o) w) else (false, w)

/-- How many keys `NewKeyPool` makes. -/
def newPoolCount (nSize : ℕ) : ℕ := if nSize > 0 then nSize else (max nKeyPoolArg 0).toNat

def newKeyPool (nSize : ℕ) (w : KeyPoolWallet K) : Bool × KeyPoolWallet K :=
  match w.clearKeyPool o with
  | none => (false, w)
  | some w =>
    if w.fLocked then (false, w)
    else
      match refillKeyPool newKey o (newPoolCount nKeyPoolArg nSize) 1 w with
      | none => (false, w)
      | some result => result

/-- How many keys `TopUpKeyPool` makes, and the first index it gives them. -/
def topUpCount : ℕ :=
  let nTargetSize := (max nKeyPoolArg 0).toNat % 2 ^ 32
  (nTargetSize + 1) % 2 ^ 32 - w.setKeyPool.card

def topUpFirst : ℕ :=
  if h : w.setKeyPool.Nonempty then w.setKeyPool.max' h + 1 else 1

/-- `CWallet::TopUpKeyPool`. An exception leaves the wallet as it was. -/
def topUpKeyPool : Except KeyPoolError (Bool × KeyPoolWallet K) :=
  if w.fLocked then .ok (false, w)
  else
    match refillKeyPool newKey o (w.topUpCount nKeyPoolArg) w.topUpFirst w with
    | none => .error .topUpFailed
    | some result => .ok result

/-- `CWallet::ReserveKeyFromKeyPool`: the index and the record, or none if the pool is empty. -/
def reserveKeyFromKeyPool :
    Except KeyPoolError (Option (ℕ × CKeyPool K)) × KeyPoolWallet K :=
  match (if w.fLocked then .ok (false, w) else w.topUpKeyPool newKey nKeyPoolArg o) with
  | .error e => (.error e, w)
  | .ok (_, w) =>
    if h : w.setKeyPool.Nonempty then
      let nIndex := w.setKeyPool.min' h
      let w := { w with setKeyPool := w.setKeyPool.erase nIndex }
      match (if o.readPool then w.pool.lookup nIndex else none) with
      | none => (.error .readFailed, w)
      | some keypool =>
        if keypool.vchPubKey ∉ w.keys then (.error .unknownKey, w)
        else (.ok (some (nIndex, keypool)), w)
    else (.ok none, w)

/-- `CWallet::KeepKey` does not look at the result of `ErasePool`. -/
def keepKey (nIndex : ℕ) (w : KeyPoolWallet K) : KeyPoolWallet K :=
  if o.erasePool then { w with pool := w.pool.erase nIndex } else w

def returnKey (nIndex : ℕ) (w : KeyPoolWallet K) : KeyPoolWallet K :=
  { w with setKeyPool := insert nIndex w.setKeyPool }

def generateNewKey : Except KeyPoolError K × KeyPoolWallet K :=
  (if o.addKey then .ok (newKey w.nNewKeys) else .error .addKeyFailed,
    { w with keys := newKey w.nNewKeys :: w.keys, nNewKeys := w.nNewKeys + 1 })

/-- `CWallet::GetKeyFromPool`: the key, or none when it returns false. -/
def getKeyFromPool (fAllowReuse : Bool) (w : KeyPoolWallet K) :
    Except KeyPoolError (Option K) × KeyPoolWallet K :=
  match w.reserveKeyFromKeyPool newKey nKeyPoolArg o with
  | (.error e, w) => (.error e, w)
  | (.ok none, w) =>
    match (if fAllowReuse then w.vchDefaultKey else none) with
    | some key => (.ok (some key), w)
    | none =>
      if w.fLocked then (.ok none, w)
      else ((w.generateNewKey newKey o).1.map some, (w.generateNewKey newKey o).2)
  | (.ok (some (nIndex, keypool)), w) => (.ok (some keypool.vchPubKey), w.keepKey o nIndex)

end KeyPoolWallet

end Phoenixcoin.Program
