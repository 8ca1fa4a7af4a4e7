import Mathlib.Data.List.Sort
import Phoenixcoin.Program.BlockIndex
import Phoenixcoin.Program.Script

/-!
# Rules for the next block

What a block must fulfil because of its place in the chain: its time stamp, the work it needs
and the finality of its transactions. An entry is given together with the entries before it,
the nearest one first; `none` stands for a null pointer that the source would follow.
-/

set_option autoImplicit false

namespace Phoenixcoin.Program

/-! ## Constants -/

def nForkOne : ℕ := 46500
def nForkTwo : ℕ := 69444
def nForkFive : ℕ := 400000
def nSoftForkOne : ℕ := 270000
def nSoftForkTwo : ℕ := 340000
def nTestnetForkTwo : ℕ := 3600
def nTestnetSoftForkOne : ℕ := 3400
def nTestnetSoftForkTwo : ℕ := 3500

/-- 01 Aug 2014 00:00:00 GMT. -/
def nSwitchV2 : ℕ := 1406851200

/-- 08 Jul 2014 00:00:00 GMT. -/
def nTestnetSwitchV2 : ℕ := 1404777600

def BLOCK_LIMITER_TIME : ℤ := 120

def LOCKTIME_THRESHOLD : ℕ := 500000000

def bnProofOfWorkLimit : ℤ := (2 ^ 256 - 1) >>> 20

/-- The difficulty after switching to NeoScrypt. -/
def bnNeoScryptSwitch : ℤ := (2 ^ 256 - 1) >>> 26

/-- The conversion of an `int64` to `unsigned int`. -/
def toUint (n : ℤ) : ℕ := (n % 2 ^ 32).toNat

/-- The conversion of an `int64` to `int`. -/
def toInt (n : ℤ) : ℤ := n.bmod (2 ^ 32)

/-! ## Time stamps -/

def nMedianTimeSpan : ℕ := 11

def getMedianTimePast (chain : List CBlockIndex) : ℤ :=
  let pmedian := ((chain.take nMedianTimeSpan).map CBlockIndex.nTime).insertionSort (· ≤ ·)
  (pmedian[pmedian.length / 2]?.getD 0 : ℕ)

/-- The accumulator of `GetAverageTimePast`: a time stamp counts as at least `nMinDelay` after
the one before it. -/
def accumulateTime (nMinDelay : ℕ) (acc : ℕ × ℕ) (nTime : ℕ) : ℕ × ℕ :=
  let nEarliest := (acc.1 + nMinDelay) % 2 ^ 32
  let nTempTime := if nTime < nEarliest then nEarliest else nTime
  (nTempTime, acc.2 + nTempTime)

def getAverageTimePast (nAvgTimeSpan nMinDelay : ℕ) (chain : List CBlockIndex) : ℕ :=
  let times := ((chain.take nAvgTimeSpan).map CBlockIndex.nTime).reverse
  match List.replicate (nAvgTimeSpan - times.length) 0 ++ times with
  | [] => 0
  | nFirst :: avg =>
    if nFirst = 0 then 0
    else (avg.foldl (accumulateTime nMinDelay) (nFirst, nFirst)).2 / nAvgTimeSpan % 2 ^ 32

/-! ## Finality -/

def CTxIn.IsFinal (txin : CTxIn) : Bool := txin.nSequence = uintMax

/-- `CTransaction::IsFinal`. A height or a time of zero stands for the current one. -/
def CTransaction.IsFinal (nBestHeight nAdjustedTime nBlockHeight nBlockTime : ℤ)
    (tx : CTransaction) : Bool :=
  if tx.nLockTime = 0 then true
  else
    let nBlockHeight := if nBlockHeight = 0 then nBestHeight else nBlockHeight
    let nBlockTime := if nBlockTime = 0 then nAdjustedTime else nBlockTime
    if tx.nLockTime < (if tx.nLockTime < LOCKTIME_THRESHOLD then nBlockHeight else nBlockTime) then
      true
    else tx.vin.all CTxIn.IsFinal

/-! ## Required work -/

/-- The number of bytes in which OpenSSL writes a number and its sign. -/
def mpiSize (n : ℕ) : ℕ := if n = 0 then 0 else (n.log2 + 1) / 8 + 1

def getCompact (bn : ℤ) : ℕ :=
  let nSize := mpiSize bn.natAbs
  let nWord :=
    if nSize ≤ 3 then bn.natAbs * 2 ^ (8 * (3 - nSize)) else bn.natAbs / 2 ^ (8 * (nSize - 3))
  (nSize * 2 ^ 24 + nWord + if bn < 0 then 2 ^ 23 else 0) % 2 ^ 32

variable (fTestNet : Bool)

/-- A livenet fork that testnet makes at a height of its own. -/
def isForked (nFork nTestnetFork nHeight : ℕ) : Bool :=
  nFork ≤ nHeight || (fTestNet && nTestnetFork ≤ nHeight)

/-- `nTargetSpacing` at a height. -/
def getTargetSpacing (nHeight : ℕ) : ℕ :=
  if isForked fTestNet nForkFour nTestnetForkOne nHeight then 90
  else if isForked fTestNet nForkThree 0 nHeight then 45
  else if nForkTwo ≤ nHeight then 50
  else 90

/-- The number of blocks that `nTargetTimespan` covers at a height. -/
def getTargetBlocks (nHeight : ℕ) : ℕ :=
  if isForked fTestNet nForkFour nTestnetForkOne nHeight then 20
  else if isForked fTestNet nForkThree 0 nHeight then 126
  else if nForkTwo ≤ nHeight then 108
  else if nForkOne ≤ nHeight then 600
  else 2400

/-- `fHardFork`: a retarget just in case a hard fork is not aligned properly. -/
def isHardFork (nHeight : ℕ) : Bool :=
  if fTestNet then nHeight = nTestnetForkOne || nHeight = nTestnetForkTwo
  else
    nHeight = nForkOne || nHeight = nForkTwo || nHeight = nForkThree || nHeight = nForkFour ||
      nHeight = nForkFive

/-- The testnet loop back to the last regular block, one without minimal difficulty. -/
def lastRegularBits (nInterval nProofOfWorkLimit : ℕ) : CBlockIndex → List CBlockIndex → ℕ
  | pindex, [] => pindex.nBits
  | pindex, pprev :: pprevs =>
    if pindex.nHeight % nInterval ≠ 0 ∧ pindex.nBits = nProofOfWorkLimit then
      lastRegularBits nInterval nProofOfWorkLimit pprev pprevs
    else pindex.nBits

/-- `nActualTimespanMin` and `nActualTimespanMax`. -/
def getTimespanBounds (nHeight : ℕ) (nTargetTimespan : ℤ) : ℤ × ℤ :=
  if isForked fTestNet nForkFive nTestnetForkTwo nHeight then
    (nTargetTimespan * 100 / 102, nTargetTimespan * 105 / 100)
  else if isForked fTestNet nForkFour nTestnetForkOne nHeight then
    (nTargetTimespan * 100 / 102, nTargetTimespan * 102 / 100)
  else if nForkThree ≤ nHeight then (nTargetTimespan * 100 / 109, nTargetTimespan * 109 / 100)
  else if nForkOne ≤ nHeight then (nTargetTimespan * 55 / 99, nTargetTimespan * 99 / 55)
  else (nTargetTimespan / 4, nTargetTimespan * 4)

/-- The time that the last `nInterval` blocks took, and from the fourth fork on its average with
that of five times as many blocks, damped by ten. -/
def getActualTimespan (fExtended : Bool) (nInterval : ℕ) (nTargetTimespan : ℤ)
    (pindexLast : CBlockIndex) (pprevs : List CBlockIndex) : Option ℤ := do
  let pindexFirst ← (pindexLast :: pprevs)[nInterval]?
  let nActualTimespan := toInt (pindexLast.nTime - pindexFirst.nTime)
  if ¬ fExtended then return nActualTimespan
  let pindexFirst ← (pindexLast :: pprevs)[nInterval + nInterval * 4]?
  let nActualTimespanExtended := toInt (((pindexLast.nTime : ℤ) - pindexFirst.nTime).tdiv 5)
  let nActualTimespanAvg := (toInt (nActualTimespan + nActualTimespanExtended)).tdiv 2
  return (toInt (nActualTimespanAvg + 9 * nTargetTimespan)).tdiv 10

/-- The end of `GetNextWorkRequired`, where the work changes. -/
def retargetWork (nInterval : ℕ) (nTargetTimespan : ℤ)
    (pindexLast : CBlockIndex) (pprevs : List CBlockIndex) : Option ℕ := do
  let nHeight := pindexLast.nHeight + 1
  let fExtended := isForked fTestNet nForkFour nTestnetForkOne nHeight
  let nInterval := if fExtended then nInterval * 5 else nInterval
  let nTargetTimespan := if fExtended then nTargetTimespan * 5 else nTargetTimespan
  let nInterval := if nInterval ≥ nHeight then nHeight - 1 else nInterval
  let nActualTimespan ← getActualTimespan fExtended nInterval nTargetTimespan pindexLast pprevs
  let (nActualTimespanMin, nActualTimespanMax) :=
    getTimespanBounds fTestNet nHeight nTargetTimespan
  let nActualTimespan := min (max nActualTimespan nActualTimespanMin) nActualTimespanMax
  let bnNew := (setCompact pindexLast.nBits * nActualTimespan).tdiv nTargetTimespan
  return getCompact (min bnNew bnProofOfWorkLimit)

/-- `GetNextWorkRequired` for a block with time stamp `nTime` on top of a chain. -/
def getNextWorkRequired (nTime : ℕ) : List CBlockIndex → Option ℕ
  | [] => some (getCompact bnProofOfWorkLimit)
  | pindexLast :: pprevs =>
    let nHeight := pindexLast.nHeight + 1
    let nTargetSpacing := getTargetSpacing fTestNet nHeight
    let nInterval := getTargetBlocks fTestNet nHeight
    if nHeight = nForkFive then some (getCompact bnNeoScryptSwitch)
    else if nHeight % nInterval ≠ 0 ∧ ¬ isHardFork fTestNet nHeight then
      if ¬ fTestNet then some pindexLast.nBits
      else if nTime > (pindexLast.nTime + nTargetSpacing * 2) % 2 ^ 32 then
        some (getCompact bnProofOfWorkLimit)
      else some (lastRegularBits nInterval (getCompact bnProofOfWorkLimit) pindexLast pprevs)
    else retargetWork fTestNet nInterval (nInterval * nTargetSpacing) pindexLast pprevs

theorem getNextWorkRequired_livenet (nTime nTime' : ℕ) (chain : List CBlockIndex) :
    getNextWorkRequired false nTime chain = getNextWorkRequired false nTime' chain := by
  cases chain <;> rfl

/-! ## Numbers in scripts -/

/-- `CBigNum::getvch` of a number that is not negative. -/
def getvch (n : ℕ) : valtype := toLittleEndian (mpiSize n) n

/-- `CScript::push_int64`. A number below `-1` takes the sign bit of its last byte. -/
def pushInt64 (n : ℤ) : CScript :=
  if n = -1 ∨ (1 ≤ n ∧ n ≤ 16) then [UInt8.ofNat (n + (OP_1.toNat - 1)).toNat]
  else if n < 0 then
    pushData (toLittleEndian (mpiSize n.natAbs) (n.natAbs + 2 ^ (8 * mpiSize n.natAbs - 1)))
  else pushData (getvch n.natAbs)

/-- `CScript::push_uint64`. -/
def pushUint64 (n : ℕ) : CScript :=
  if 1 ≤ n ∧ n ≤ 16 then [UInt8.ofNat (n + (OP_1.toNat - 1))] else pushData (getvch n)

/-- The miner pushes an `unsigned int` where `AcceptBlock` pushes an `int`. -/
theorem pushUint64_eq (n : ℕ) : pushUint64 n = pushInt64 n := by
  have hneg : ¬ (n : ℤ) < 0 := not_lt.mpr (Int.natCast_nonneg n)
  have hone : (n : ℤ) ≠ -1 := by omega
  unfold pushUint64 pushInt64
  by_cases hsmall : 1 ≤ n ∧ n ≤ 16
  · rw [if_pos hsmall, if_pos (Or.inr (by exact_mod_cast hsmall))]
    norm_cast
  · rw [if_neg hsmall, if_neg, if_neg hneg, Int.natAbs_natCast]
    rintro (h | h)
    · exact hone h
    · exact hsmall (by exact_mod_cast h)

end Phoenixcoin.Program
