import Phoenixcoin.Program.BlockRules
import Mathlib.Data.Finset.Sort

/-!
# The address manager

`CAddrMan` of `addrman.cpp`. An operation that fails an assertion has no result. Every random
choice is an argument: `getRandInt` turns any number into one of the allowed ones.
-/

set_option autoImplicit false

namespace Phoenixcoin.Program

open Lib

def ADDRMAN_TRIED_BUCKET_COUNT : ℕ := 64
def ADDRMAN_TRIED_BUCKET_SIZE : ℕ := 64
def ADDRMAN_NEW_BUCKET_COUNT : ℕ := 256
def ADDRMAN_NEW_BUCKET_SIZE : ℕ := 64
def ADDRMAN_NEW_BUCKETS_PER_ADDRESS : ℤ := 4
def ADDRMAN_TRIED_ENTRIES_INSPECT_ON_EVICT : ℕ := 4
def ADDRMAN_HORIZON_DAYS : ℤ := 30
def ADDRMAN_RETRIES : ℤ := 3
def ADDRMAN_MAX_FAILURES : ℤ := 10
def ADDRMAN_MIN_FAIL_DAYS : ℤ := 7
def ADDRMAN_GETADDR_MAX_PCT : ℕ := 23
def ADDRMAN_GETADDR_MAX : ℕ := 2500

/-- `GetRandInt(nMax)`, where `r` decides the outcome. -/
def getRandInt (r nMax : ℕ) : ℕ := if nMax = 0 then 0 else r % nMax

/-! ## Addresses -/

/-- The 16 bytes of an address. -/
abbrev CNetAddr := List UInt8

structure CService where
  ip : CNetAddr
  port : ℕ
deriving DecidableEq

structure CAddress extends CService where
  nServices : ℕ
  nTime : ℕ
deriving DecidableEq

structure CAddrInfo extends CAddress where
  source : CNetAddr
  nLastTry : ℤ
  nLastSuccess : ℤ
  nAttempts : ℤ
  nRefCount : ℤ
  fInTried : Bool
  nRandomPos : ℤ
deriving DecidableEq

namespace CAddrInfo

/-- The constructor `CAddrInfo(addrIn, addrSource)`. -/
def ofAddress (addrIn : CAddress) (addrSource : CNetAddr) : CAddrInfo where
  toCAddress := addrIn
  source := addrSource
  nLastTry := 0
  nLastSuccess := 0
  nAttempts := 0
  nRefCount := 0
  fInTried := false
  nRandomPos := -1

def isTerrible (nNow : ℤ) (info : CAddrInfo) : Bool :=
  if info.nLastTry ≠ 0 ∧ info.nLastTry ≥ nNow - 60 then false
  else if info.nTime > nNow + 10 * 60 then true
  else if info.nTime = 0 ∨ nNow - info.nTime > ADDRMAN_HORIZON_DAYS * 86400 then true
  else if info.nLastSuccess = 0 ∧ info.nAttempts ≥ ADDRMAN_RETRIES then true
  else decide (nNow - info.nLastSuccess > ADDRMAN_MIN_FAIL_DAYS * 86400 ∧
    info.nAttempts ≥ ADDRMAN_MAX_FAILURES)

end CAddrInfo

/-- What the address manager takes from elsewhere: which addresses are routable, and the last
hashes of `GetTriedBucket` and `GetNewBucket` under the node's key. -/
structure AddrEnv where
  isRoutable : CNetAddr → Bool
  triedHash : CService → ℕ
  newHash : CNetAddr → CNetAddr → ℕ

abbrev TriedBucket := Fin ADDRMAN_TRIED_BUCKET_COUNT
abbrev NewBucket := Fin ADDRMAN_NEW_BUCKET_COUNT

instance : NeZero ADDRMAN_TRIED_BUCKET_COUNT := ⟨by decide⟩
instance : NeZero ADDRMAN_NEW_BUCKET_COUNT := ⟨by decide⟩

def AddrEnv.getTriedBucket (env : AddrEnv) (info : CAddrInfo) : TriedBucket :=
  Fin.ofNat ADDRMAN_TRIED_BUCKET_COUNT (env.triedHash info.toCService)

def AddrEnv.getNewBucket (env : AddrEnv) (info : CAddrInfo) (src : CNetAddr) : NewBucket :=
  Fin.ofNat ADDRMAN_NEW_BUCKET_COUNT (env.newHash info.ip src)

/-! ## The tables -/

structure CAddrMan where
  /-- An `int` in the source: runs that create fewer than `2^31` entries are meant. -/
  nIdCount : ℕ
  mapInfo : Table ℕ CAddrInfo
  mapAddr : Table CNetAddr ℕ
  vRandom : List ℕ
  nTried : ℤ
  vvTried : TriedBucket → List ℕ
  nNew : ℤ
  vvNew : NewBucket → Finset ℕ

namespace CAddrMan

/-- The constructor. -/
def new : CAddrMan where
  nIdCount := 0
  mapInfo := ∅
  mapAddr := ∅
  vRandom := []
  nTried := 0
  vvTried := fun _ => []
  nNew := 0
  vvNew := fun _ => ∅

/-- `Find`: the id and the entry. -/
def find (addr : CNetAddr) (s : CAddrMan) : Option (ℕ × CAddrInfo) := do
  let nId ← s.mapAddr.lookup addr
  let info ← s.mapInfo.lookup nId
  return (nId, info)

/-- An assignment to fields of `mapInfo[nId]`. -/
def modifyInfo (nId : ℕ) (f : CAddrInfo → CAddrInfo) (s : CAddrMan) : CAddrMan :=
  match s.mapInfo.lookup nId with
  | some info => { s with mapInfo := s.mapInfo.insert nId (f info) }
  | none => s

def insertNew (nUBucket : NewBucket) (nId : ℕ) (s : CAddrMan) : CAddrMan :=
  { s with vvNew := Function.update s.vvNew nUBucket (insert nId (s.vvNew nUBucket)) }

def eraseNew (nUBucket : NewBucket) (nId : ℕ) (s : CAddrMan) : CAddrMan :=
  { s with vvNew := Function.update s.vvNew nUBucket ((s.vvNew nUBucket).erase nId) }

def create (addr : CAddress) (addrSource : CNetAddr) (s : CAddrMan) : ℕ × CAddrMan :=
  let nId := s.nIdCount
  (nId, { s with
      nIdCount := nId + 1
      mapInfo := s.mapInfo.insert nId
        { CAddrInfo.ofAddress addr addrSource with nRandomPos := s.vRandom.length }
      mapAddr := s.mapAddr.insert addr.ip nId
      vRandom := s.vRandom ++ [nId] })

def swapRandom (nRndPos1 nRndPos2 : ℕ) (s : CAddrMan) : Option CAddrMan :=
  if nRndPos1 = nRndPos2 then some s
  else do
    let nId1 ← s.vRandom[nRndPos1]?
    let nId2 ← s.vRandom[nRndPos2]?
    guard (nId1 ∈ s.mapInfo ∧ nId2 ∈ s.mapInfo)
    let s := s.modifyInfo nId1 fun info => { info with nRandomPos := nRndPos2 }
    let s := s.modifyInfo nId2 fun info => { info with nRandomPos := nRndPos1 }
    return { s with vRandom := (s.vRandom.set nRndPos1 nId2).set nRndPos2 nId1 }

/-! ## Buckets -/

/-- The loop of `SelectTried` from position `i` on, with the shuffled bucket and the oldest entry
so far with its position. -/
def selectTriedFrom (mapInfo : Table ℕ CAddrInfo) (r : ℕ → ℕ) :
    ℕ → ℕ → List ℕ → Option (ℕ × ℕ) → Option (List ℕ × Option (ℕ × ℕ))
  | 0, _, vTried, nOldest => some (vTried, nOldest)
  | n + 1, i, vTried, nOldest =>
    if i < vTried.length then do
      let nPos := getRandInt (r i) (vTried.length - i) + i
      let nTemp ← vTried[nPos]?
      let nFirst ← vTried[i]?
      let vTried := (vTried.set nPos nFirst).set i nTemp
      match nOldest with
      | none => selectTriedFrom mapInfo r n (i + 1) vTried (some (nTemp, nPos))
      | some (nOld, _) =>
        let infoTemp ← mapInfo.lookup nTemp
        let infoOld ← mapInfo.lookup nOld
        selectTriedFrom mapInfo r n (i + 1) vTried
          (if infoTemp.nLastSuccess < infoOld.nLastSuccess then some (nTemp, nPos) else nOldest)
    else some (vTried, nOldest)

/-- `SelectTried`: the position to replace, `none` for an empty bucket. -/
def selectTried (r : ℕ → ℕ) (nKBucket : TriedBucket) (s : CAddrMan) :
    Option (Option ℕ × CAddrMan) := do
  let (vTried, nOldest) ← selectTriedFrom s.mapInfo r ADDRMAN_TRIED_ENTRIES_INSPECT_ON_EVICT 0
    (s.vvTried nKBucket) none
  return (nOldest.map Prod.snd, { s with vvTried := Function.update s.vvTried nKBucket vTried })

/-- What both branches of `ShrinkNew` do with the entry that they remove from the bucket. -/
def dropReference (nUBucket : NewBucket) (nId : ℕ) (s : CAddrMan) : Option CAddrMan := do
  let info ← s.mapInfo.lookup nId
  let s := s.modifyInfo nId fun info => { info with nRefCount := info.nRefCount - 1 }
  let s ← if info.nRefCount - 1 = 0 then do
      let s ← s.swapRandom info.nRandomPos.toNat (s.vRandom.length - 1)
      some { s with
        vRandom := s.vRandom.dropLast
        mapAddr := s.mapAddr.erase info.ip
        mapInfo := s.mapInfo.erase nId
        nNew := s.nNew - 1 }
    else some s
  return s.eraseNew nUBucket nId

/-- The loop of `ShrinkNew` that looks for a deletable entry. -/
def findTerrible (mapInfo : Table ℕ CAddrInfo) (nNow : ℤ) : List ℕ → Option (Option ℕ)
  | [] => some none
  | nId :: rest => do
    let info ← mapInfo.lookup nId
    if info.isTerrible nNow then some (some nId) else findTerrible mapInfo nNow rest

/-- The loop of `ShrinkNew` that picks the oldest of the entries at four positions. -/
def oldestAt (mapInfo : Table ℕ CAddrInfo) (positions : List ℕ) :
    List (ℕ × ℕ) → Option ℕ → Option (Option ℕ)
  | [], nOldest => some nOldest
  | (nId, nI) :: rest, nOldest =>
    if nI ∈ positions then
      match nOldest with
      | none => oldestAt mapInfo positions rest (some nId)
      | some nOld => do
        let info ← mapInfo.lookup nId
        let infoOld ← mapInfo.lookup nOld
        oldestAt mapInfo positions rest (if info.nTime < infoOld.nTime then some nId else nOldest)
    else oldestAt mapInfo positions rest nOldest

def shrinkNew (nNow : ℤ) (r : ℕ → ℕ) (nUBucket : NewBucket) (s : CAddrMan) : Option CAddrMan := do
  let vNew := (s.vvNew nUBucket).sort (· ≤ ·)
  match ← findTerrible s.mapInfo nNow vNew with
  | some nId => s.dropReference nUBucket nId
  | none =>
    let positions := (List.range 4).map fun k => getRandInt (r k) vNew.length
    let nOldest ← (← oldestAt s.mapInfo positions vNew.zipIdx none)
    s.dropReference nUBucket nOldest

section Operations

variable (env : AddrEnv)

def makeTried (r : ℕ → ℕ) (nId : ℕ) (nOrigin : NewBucket) (s : CAddrMan) : Option CAddrMan := do
  guard (nId ∈ s.vvNew nOrigin)
  let info ← s.mapInfo.lookup nId
  let nRefCount := info.nRefCount - (Finset.univ.filter fun b => nId ∈ s.vvNew b).card
  let s := { s with
    vvNew := fun b => (s.vvNew b).erase nId
    nNew := s.nNew - 1 }
  guard (nRefCount = 0)
  let s := s.modifyInfo nId fun info => { info with nRefCount := nRefCount }
  let nKBucket := env.getTriedBucket info
  if (s.vvTried nKBucket).length < ADDRMAN_TRIED_BUCKET_SIZE then
    let s := s.modifyInfo nId fun info => { info with fInTried := true }
    return { s with
      vvTried := Function.update s.vvTried nKBucket (s.vvTried nKBucket ++ [nId])
      nTried := s.nTried + 1 }
  else
    let (nPos, s) ← s.selectTried r nKBucket
    let nPos ← nPos
    let nOld ← (s.vvTried nKBucket)[nPos]?
    let infoOld ← s.mapInfo.lookup nOld
    let nUBucket := env.getNewBucket infoOld infoOld.source
    let s := s.modifyInfo nOld fun info => { info with fInTried := false, nRefCount := 1 }
    let s :=
      if (s.vvNew nUBucket).card < ADDRMAN_NEW_BUCKET_SIZE then s.insertNew nUBucket nOld
      else s.insertNew nOrigin nOld
    let s := s.modifyInfo nId fun info => { info with fInTried := true }
    return { s with
      vvTried := Function.update s.vvTried nKBucket ((s.vvTried nKBucket).set nPos nId)
      nNew := s.nNew + 1 }

/-- The random choices of one call: of `ShrinkNew`, of `SelectTried`, and of the call itself. -/
structure AddrRandom where
  shrink : ℕ → ℕ
  select : ℕ → ℕ
  self : ℕ

variable (nNow : ℤ)

/-- The end of `Add_` and of the branch of `Good_` for an entry that is in no bucket. -/
def addReference (r : AddrRandom) (nUBucket : NewBucket) (nId : ℕ) (s : CAddrMan) :
    Option CAddrMan := do
  let s := s.modifyInfo nId fun info => { info with nRefCount := info.nRefCount + 1 }
  let s ← if (s.vvNew nUBucket).card = ADDRMAN_NEW_BUCKET_SIZE then
      s.shrinkNew nNow r.shrink nUBucket
    else some s
  return s.insertNew nUBucket nId

/-- The loop of `Good_` over the buckets, from a random one on. -/
def findBucket (nRnd nId : ℕ) (s : CAddrMan) : Option NewBucket :=
  ((List.range ADDRMAN_NEW_BUCKET_COUNT).map fun n =>
    Fin.ofNat ADDRMAN_NEW_BUCKET_COUNT (n + nRnd)).find? fun nB => nId ∈ s.vvNew nB

/-- `Good_`. -/
def good (r : AddrRandom) (addr : CService) (nTime : ℤ) (s : CAddrMan) :
    Option CAddrMan :=
  match s.find addr.ip with
  | none => some s
  | some (nId, info) =>
    if info.toCService ≠ addr then some s
    else
      let s := s.modifyInfo nId fun info =>
        { info with
          nLastSuccess := nTime
          nLastTry := nTime
          nTime := toUint nTime
          nAttempts := 0 }
      if info.fInTried then some s
      else
        match s.findBucket (getRandInt r.self ADDRMAN_NEW_BUCKET_COUNT) nId with
        | some nUBucket => s.makeTried env r.select nId nUBucket
        | none =>
          let nUBucket := env.getNewBucket info info.source
          if nId ∈ s.vvNew nUBucket ∨ info.nRefCount ≥ ADDRMAN_NEW_BUCKETS_PER_ADDRESS then some s
          else do
            let s ← s.addReference nNow r nUBucket nId
            s.makeTried env r.select nId nUBucket

/-- What `Add_` does with the time and the services of an entry that exists. -/
def updateEntry (addr : CAddress) (nTimePenalty : ℤ) (info : CAddrInfo) : CAddrInfo :=
  let nUpdateInterval : ℤ := if nNow - addr.nTime < 24 * 60 * 60 then 60 * 60 else 24 * 60 * 60
  let info :=
    if addr.nTime ≠ 0 ∧
        (info.nTime = 0 ∨ (info.nTime : ℤ) < addr.nTime - nUpdateInterval - nTimePenalty) then
      { info with nTime := toUint (max 0 (addr.nTime - nTimePenalty)) }
    else info
  { info with nServices := info.nServices ||| addr.nServices }

/-- The last part of `Add_`: a reference from the bucket for this source. -/
def addToBucket (r : AddrRandom) (source : CNetAddr) (nId : ℕ) (info : CAddrInfo)
    (s : CAddrMan) : Option CAddrMan :=
  let nUBucket := env.getNewBucket info source
  if nId ∈ s.vvNew nUBucket then some s else s.addReference nNow r nUBucket nId

/-- `Add_`: the result and the tables afterwards. -/
def add (r : AddrRandom) (addr : CAddress) (source : CNetAddr) (nTimePenalty : ℤ)
    (s : CAddrMan) : Option (Bool × CAddrMan) :=
  if ¬ env.isRoutable addr.ip then some (false, s)
  else
    match s.find addr.ip with
    | some (nId, info) =>
      let info := updateEntry nNow addr nTimePenalty info
      let s := s.modifyInfo nId fun _ => info
      if addr.nTime = 0 ∨ info.nTime ≠ 0 ∧ addr.nTime ≤ info.nTime then some (false, s)
      else if info.fInTried then some (false, s)
      else if info.nRefCount = ADDRMAN_NEW_BUCKETS_PER_ADDRESS then some (false, s)
      else
        -- N references make a further one 2 ^ N times harder
        let nFactor := 2 ^ info.nRefCount.toNat
        if nFactor > 1 ∧ getRandInt r.self nFactor ≠ 0 then some (false, s)
        else (s.addToBucket env nNow r source nId info).map fun s => (false, s)
    | none =>
      let (nId, s) := s.create addr source
      let s := s.modifyInfo nId fun info =>
        { info with nTime := toUint (max 0 (info.nTime - nTimePenalty)) }
      let s := { s with nNew := s.nNew + 1 }
      (s.addToBucket env nNow r source nId (CAddrInfo.ofAddress addr source)).map fun s => (true, s)

end Operations

/-- `Attempt_`. -/
def attempt (addr : CService) (nTime : ℤ) (s : CAddrMan) : CAddrMan :=
  match s.find addr.ip with
  | none => s
  | some (nId, info) =>
    if info.toCService ≠ addr then s
    else s.modifyInfo nId fun info =>
      { info with nLastTry := nTime, nAttempts := info.nAttempts + 1 }

/-- `Connected_`. -/
def connected (addr : CService) (nTime : ℤ) (s : CAddrMan) : CAddrMan :=
  match s.find addr.ip with
  | none => s
  | some (nId, info) =>
    if info.toCService ≠ addr then s
    else s.modifyInfo nId fun info =>
      if nTime - info.nTime > 20 * 60 then { info with nTime := toUint nTime } else info

/-- One round of a loop of `Select_`: the bucket, the position in it, and whether the entry is
taken. The result is the entry, if the loop ends with it. -/
structure SelectRound where
  bucket : ℕ
  position : ℕ
  fTaken : Bool

/-- The loops of `Select_`, as far as the rounds go. Whether a tried entry is wanted is decided
by chance. -/
def selectRounds (fTried : Bool) (s : CAddrMan) : List SelectRound → Option (Option CAddrInfo)
  | [] => some none
  | round :: rest =>
    let bucket :=
      if fTried then s.vvTried (Fin.ofNat _ (getRandInt round.bucket ADDRMAN_TRIED_BUCKET_COUNT))
      else (s.vvNew (Fin.ofNat _ (getRandInt round.bucket ADDRMAN_NEW_BUCKET_COUNT))).sort (· ≤ ·)
    if bucket.length = 0 then selectRounds fTried s rest
    else do
      let nId ← bucket[getRandInt round.position bucket.length]?
      let info ← s.mapInfo.lookup nId
      if round.fTaken then some (some info) else selectRounds fTried s rest

/-- The loop of `GetAddr_`. -/
def getAddrFrom (r : ℕ → ℕ) : ℕ → ℕ → CAddrMan → List CAddrInfo → Option (List CAddrInfo × CAddrMan)
  | 0, _, s, vAddr => some (vAddr, s)
  | k + 1, n, s, vAddr => do
    let s ← s.swapRandom n (getRandInt (r n) (s.vRandom.length - n) + n)
    let nId ← s.vRandom[n]?
    let info ← s.mapInfo.lookup nId
    getAddrFrom r k (n + 1) s (vAddr ++ [info])

/-- `GetAddr_`: the addresses and the tables afterwards. -/
def getAddr (r : ℕ → ℕ) (s : CAddrMan) : Option (List CAddrInfo × CAddrMan) :=
  getAddrFrom r (min (ADDRMAN_GETADDR_MAX_PCT * s.vRandom.length / 100) ADDRMAN_GETADDR_MAX) 0 s []

/-! ## The check -/

/-- The body of the first loop of `Check_`. -/
def checkInfo (s : CAddrMan) (acc : Finset ℕ × Table ℕ ℤ) (n : ℕ) :
    Except ℤ (Finset ℕ × Table ℕ ℤ) :=
  match s.mapInfo.lookup n with
  | none => .ok acc
  | some info => do
    let acc ← if info.fInTried then
        if info.nLastSuccess = 0 then .error (-1)
        else if info.nRefCount ≠ 0 then .error (-2)
        else .ok (insert n acc.1, acc.2)
      else
        if info.nRefCount < 0 ∨ info.nRefCount > ADDRMAN_NEW_BUCKETS_PER_ADDRESS then .error (-3)
        else if info.nRefCount = 0 then .error (-4)
        else .ok (acc.1, acc.2.insert n info.nRefCount)
    if (s.mapAddr.lookup info.ip).getD 0 ≠ n then .error (-5)
    else if info.nRandomPos < 0 ∨ info.nRandomPos ≥ s.vRandom.length ∨
        s.vRandom[info.nRandomPos.toNat]? ≠ some n then .error (-14)
    else if info.nLastTry < 0 then .error (-6)
    else if info.nLastSuccess < 0 then .error (-8)
    else .ok acc

/-- The body of the loop over the tried buckets. -/
def checkTried (setTried : Finset ℕ) (n : ℕ) : Except ℤ (Finset ℕ) :=
  if n ∉ setTried then .error (-11) else .ok (setTried.erase n)

/-- The body of the loop over the new buckets. -/
def checkNew (mapNew : Table ℕ ℤ) (n : ℕ) : Except ℤ (Table ℕ ℤ) :=
  match mapNew.lookup n with
  | none => .error (-12)
  | some count => .ok (if count - 1 = 0 then mapNew.erase n else mapNew.insert n (count - 1))

/-- The ids in the tried buckets, in the order in which the loops visit them. -/
def triedIds (s : CAddrMan) : List ℕ := (List.finRange ADDRMAN_TRIED_BUCKET_COUNT).flatMap s.vvTried

/-- The ids in the new buckets, once for each bucket that contains them. -/
def newIds (s : CAddrMan) : List ℕ :=
  (List.finRange ADDRMAN_NEW_BUCKET_COUNT).flatMap fun b => (s.vvNew b).sort (· ≤ ·)

/-- `Check_`. -/
def check (s : CAddrMan) : ℤ :=
  let result : Except ℤ Unit := do
    if (s.vRandom.length : ℤ) ≠ s.nTried + s.nNew then .error (-7)
    let (setTried, mapNew) ← (s.mapInfo.keys.sort (· ≤ ·)).foldlM s.checkInfo (∅, ∅)
    if (setTried.card : ℤ) ≠ s.nTried then .error (-9)
    if (mapNew.keys.card : ℤ) ≠ s.nNew then .error (-10)
    let setTried ← s.triedIds.foldlM checkTried setTried
    let mapNew ← s.newIds.foldlM checkNew mapNew
    if setTried ≠ ∅ then .error (-13)
    if mapNew ≠ ∅ then .error (-15)
    return ()
  match result with
  | .ok _ => 0
  | .error code => code

end CAddrMan

end Phoenixcoin.Program
