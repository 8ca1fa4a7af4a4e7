import Phoenixcoin.Lib.TextFields
import Phoenixcoin.Program.AddrMan
import Phoenixcoin.Program.Int64

/-!
# The adjusted time

`CMedianFilter` of `util.h` with `AddTimeData` and `GetAdjustedTime` of `util.cpp`. The reading of
the system clock is an argument; a step that overflows gives none.
-/

set_option autoImplicit false

namespace Phoenixcoin.Program

open Lib

/-- `CMedianFilter<int64>`. -/
structure CMedianFilter where
  vValues : List ℤ
  vSorted : List ℤ
  nSize : ℕ
deriving DecidableEq, Repr

namespace CMedianFilter

/-- The constructor. -/
def new (size : ℕ) (initial_value : ℤ) : CMedianFilter := ⟨[initial_value], [initial_value], size⟩

def input (value : ℤ) (filter : CMedianFilter) : CMedianFilter :=
  let vValues :=
    (if filter.vValues.length = filter.nSize then filter.vValues.tail
    else filter.vValues) ++ [value]
  ⟨vValues, vValues.insertionSort (· ≤ ·), filter.nSize⟩

/-- `median`; none is also the failed assertion. -/
def median (filter : CMedianFilter) : Option ℤ :=
  let size := filter.vSorted.length
  if size % 2 = 1 then filter.vSorted[size / 2]?
  else do
    let low ← filter.vSorted[size / 2 - 1]?
    let high ← filter.vSorted[size / 2]?
    let sum ← int64 (low + high)
    some (sum.tdiv 2)

def size (filter : CMedianFilter) : ℕ := filter.vValues.length

end CMedianFilter

/-- The variables of `util.cpp` that the adjusted time depends on. -/
structure TimeData where
  nNtpOffset : ℤ
  nPeersOffset : ℤ
  vTimeOffsets : CMedianFilter
  setKnown : Finset CNetAddr
  fPeersWarning : Bool
  strMiscWarning : List UInt8

namespace TimeData

/-- The variables when the program starts. -/
def start : TimeData where
  nNtpOffset := INT64_MAX
  nPeersOffset := INT64_MAX
  vTimeOffsets := .new 200 0
  setKnown := ∅
  fPeersWarning := false
  strMiscWarning := []

/-- `GetAdjustedTime`, where `GetTime` gives `nTime`. -/
def GetAdjustedTime (nTime : ℤ) (s : TimeData) : Option ℤ := do
  if (← abs64 s.nNtpOffset) < 30 * 60 then int64 (nTime + s.nNtpOffset)
  else if (← abs64 s.nPeersOffset) < 60 * 60 then int64 (nTime + s.nPeersOffset)
  else some nTime

def strPeersWarning : List UInt8 := ascii <|
  "Warning: Please check your date and time! " ++
    "Phoenixcoin will not work properly if they are incorrect."

/-- One round of the loop that looks for a peer whose time is close to ours but not the same. -/
def matchOffset (fMatch : Bool) (nOffset : ℤ) : Option Bool :=
  if nOffset = 0 then some fMatch
  else (abs64 nOffset).map fun nAbs => fMatch || nAbs < 5 * 60

/-- The branch of `AddTimeData` for an odd number of samples. -/
def adoptMedian (s : TimeData) : Option TimeData := do
  let nMedian ← s.vTimeOffsets.median
  let nPeersOffset := if (← abs64 nMedian) < 60 * 60 then nMedian else INT64_MAX
  let fMatch ← s.vTimeOffsets.vSorted.foldlM matchOffset false
  let s := { s with nPeersOffset }
  if ¬ fMatch ∧ ¬ s.fPeersWarning then
    some { s with fPeersWarning := true, strMiscWarning := strPeersWarning }
  else if fMatch ∧ s.fPeersWarning then
    some { s with fPeersWarning := false, strMiscWarning := [] }
  else some s

/-- `AddTimeData`, where `GetTime` gives `nNow`. -/
def AddTimeData (ip : CNetAddr) (nTime nNow : ℤ) (s : TimeData) : Option TimeData := do
  let nOffsetSample ← int64 (nTime - nNow)
  if ip ∈ s.setKnown then return s
  let s :=
    { s with
      setKnown := insert ip s.setKnown
      vTimeOffsets := s.vTimeOffsets.input nOffsetSample }
  if 5 ≤ s.vTimeOffsets.size ∧ s.vTimeOffsets.size % 2 = 1 then s.adoptMedian else return s

end TimeData

end Phoenixcoin.Program
