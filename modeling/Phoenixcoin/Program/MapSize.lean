import Phoenixcoin.Lib.TextFields
import Phoenixcoin.Program.LmdbEnv

/-!
# Map sizes in machine words

The arithmetic of `CLMDBEnv::GrowMap` on `size_t`, with words of any width. Every operation
reports an overflow: it has no result then. With it, `ParseLMDBMapSize`, `ResolveLMDBMapSizes` and
`GetLMDBWalletMapSizeForMigration` of `db.cpp` on both word sizes, where the errors carry what their
texts name.
-/

set_option autoImplicit false

namespace Phoenixcoin.Program

/-- `size_t`: words with `w` bits more than the sixteen that every platform has. -/
abbrev SizeT (w : ℕ) : Type := BitVec (16 + w)

namespace SizeT

variable {w : ℕ}

def add (a b : SizeT w) : Option (SizeT w) :=
  if a.toNat + b.toNat < 2 ^ (16 + w) then some (a + b) else none

def sub (a b : SizeT w) : Option (SizeT w) := if b.toNat ≤ a.toNat then some (a - b) else none

def mul (a b : SizeT w) : Option (SizeT w) :=
  if a.toNat * b.toNat < 2 ^ (16 + w) then some (a * b) else none

end SizeT

/-- What `GrowMap` reads of the environment: the configured maximum, and of LMDB's report the map
size, the page size and the size of the pages in use. -/
structure GrowSizes (w : ℕ) where
  nMaxMapSize : SizeT w
  nPageSize : SizeT w
  nCurrent : SizeT w
  nUsed : SizeT w
deriving DecidableEq, Repr

namespace GrowSizes

variable {w : ℕ}

def alignDown (nValue nAlignment : SizeT w) : Option (SizeT w) :=
  if nAlignment > 0 then SizeT.mul (nValue / nAlignment) nAlignment else some nValue

/-- The doubling of `GrowMap`, clamped before it multiplies. -/
def doubled (nCurrent nMax : SizeT w) : Option (SizeT w) :=
  if nCurrent > nMax / 2 then some nMax else SizeT.mul nCurrent 2

/-- The size that `GrowMap` asks LMDB for, and none at the maximum; an overflow gives no result. -/
def growTarget (sizes : GrowSizes w) : Option (Option (SizeT w)) := do
  let nMax ← alignDown sizes.nMaxMapSize sizes.nPageSize
  let nMax := if nMax < sizes.nCurrent then sizes.nCurrent else nMax
  if nMax ≤ sizes.nCurrent then return none
  let nTarget ← alignDown (← doubled sizes.nCurrent nMax) sizes.nPageSize
  if nTarget ≤ sizes.nCurrent then
    let nLast ← SizeT.sub nMax sizes.nPageSize
    if sizes.nCurrent > nLast then return some nMax
    else return some (← SizeT.add sizes.nCurrent sizes.nPageSize)
  else return some nTarget

/-- `mdb_env_set_mapsize` does not make the map smaller than the pages in use. -/
def mdbEnvSetMapSize (sizes : GrowSizes w) (nSize : SizeT w) : GrowSizes w :=
  { sizes with nCurrent := if nSize < sizes.nUsed then sizes.nUsed else nSize }

/-- `GrowMap`, as far as the sizes go: the sizes afterwards, and none where it fails. -/
def growMap (sizes : GrowSizes w) : Option (Option (GrowSizes w)) :=
  if sizes.nPageSize = 0 then some none
  else sizes.growTarget.map (Option.map sizes.mdbEnvSetMapSize)

end GrowSizes

/-! ## Sizes from options -/

open Lib

/-- The word sizes that the build distinguishes. -/
inductive Platform where
  | bits64
  | bits32
deriving DecidableEq

namespace Platform

/-- The bits of `size_t`; those of `uintmax_t` and of `unsigned long long` are 64. -/
def sizeBits : Platform → ℕ
  | bits64 => 64
  | bits32 => 32

def LMDB_MAX_MAPSIZE_MIB : Platform → ℕ
  | bits64 => (2 ^ 64 - 1) / (1024 * 1024)
  | bits32 => 2048

def GetLMDBDefaultMaxMapSizeMiB : Platform → ℕ
  | bits64 => 1024 * 1024
  | bits32 => 2048

end Platform

/-- A number in so many bits. -/
def unsigned (bits n : ℕ) : Option ℕ := if n < 2 ^ bits then some n else none

def unsignedSub (n m : ℕ) : Option ℕ := if m ≤ n then some (n - m) else none

inductive MapSizeError where
  | notNumber (strValue : List UInt8)
  | notPositive (nMiB : ℤ)
  | tooLarge (nMiB : ℤ) (nMaxMiB : ℕ)
  | unaligned (nMiB : ℤ) (nPageSize : ℕ)
  | maximumTooSmall (nMaxMiB nMiB : ℕ)
deriving DecidableEq

/-- `ParseInt64Strict` on the bytes before the first zero; `strtoll` reports a number out of
range. -/
def ParseInt64Strict (strValue : List UInt8) : Option ℤ :=
  match readInt (strValue.takeWhile (· ≠ 0)) with
  | some (nParsed, []) => if -2 ^ 63 ≤ nParsed ∧ nParsed < 2 ^ 63 then some nParsed else none
  | _ => none

section Sizes

variable (p : Platform) (nPageSize : ℕ)

def ParseLMDBMapSize (strValue : List UInt8) : Option (Except MapSizeError ℕ) :=
  match ParseInt64Strict strValue with
  | none => some (.error (.notNumber strValue))
  | some nMiB =>
    if nMiB ≤ 0 then some (.error (.notPositive nMiB))
    else if nMiB > p.LMDB_MAX_MAPSIZE_MIB then
      some (.error (.tooLarge nMiB p.LMDB_MAX_MAPSIZE_MIB))
    else do
      let nSize ← unsigned p.sizeBits nMiB.toNat
      let nProduct ← unsigned 64 (nSize * (1024 * 1024))
      let nCandidate ← unsigned p.sizeBits nProduct
      if nPageSize > 0 ∧ nPageSize ≤ nCandidate ∧ nCandidate % nPageSize ≠ 0 then
        some (.error (.unaligned nMiB nPageSize))
      else some (.ok nCandidate)

/-- The sizes `nMapSize` and `nMaxMapSize`. -/
def ResolveLMDBMapSizes (strMapSize strMaxMapSize : List UInt8) (nDefaultInitialMiB : ℤ)
    (fAutoGrow : Bool) : Option (Except MapSizeError (ℕ × ℕ)) := do
  let strInitial := if strMapSize = [] then printInt 0 nDefaultInitialMiB else strMapSize
  match ← ParseLMDBMapSize p nPageSize strInitial with
  | .error strError => some (.error strError)
  | .ok nMapSize =>
    if ¬ fAutoGrow then some (.ok (nMapSize, nMapSize))
    else
      let strMaximum :=
        if strMaxMapSize = [] then printInt 0 p.GetLMDBDefaultMaxMapSizeMiB else strMaxMapSize
      match ← ParseLMDBMapSize p nPageSize strMaximum with
      | .error strError => some (.error strError)
      | .ok nMaxMapSize =>
        if nMaxMapSize < nMapSize then
          some (.error (.maximumTooSmall (nMaxMapSize / (1024 * 1024)) (nMapSize / (1024 * 1024))))
        else some (.ok (nMapSize, nMaxMapSize))

def GetLMDBWalletMapSizeForMigration (nConfigured nSourceBytes : ℕ) : Option ℕ := do
  let nMargin := 16 * 1024 * 1024
  let nNeeded ← (if nSourceBytes > (2 ^ 64 - 1 - nMargin) / 2 then some (2 ^ 64 - 1) else do
    let nDouble ← unsigned 64 (nSourceBytes * 2)
    unsigned 64 (nDouble + nMargin))
  let nPlatformMax ← unsigned 64 (p.LMDB_MAX_MAPSIZE_MIB * 1024 * 1024)
  let nNeeded := if nNeeded > nPlatformMax then nPlatformMax else nNeeded
  let nNeeded ← (if nPageSize > 0 ∧ nNeeded < nPlatformMax then do
      let nRound ← unsignedSub nPageSize 1
      let nLimit ← unsignedSub nPlatformMax nRound
      if nNeeded ≤ nLimit then do
        let nSum ← unsigned 64 (nNeeded + nRound)
        unsigned 64 (nSum / nPageSize * nPageSize)
      else some nPlatformMax
    else some nNeeded)
  if nNeeded > nConfigured then unsigned p.sizeBits nNeeded else some nConfigured

end Sizes

end Phoenixcoin.Program
