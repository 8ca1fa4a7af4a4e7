import Phoenixcoin.Program.SetBestChain

/-!
# Block locators

`CBlockLocator` of `main.h`: the hashes that a node sends to show how far its chain reaches, and
what another node makes of them. Steps and distances are of type `int`; a number that leaves its
range has no defined value in the source, and the call no result. `FindBlockByHeight` of `main.cpp`
looks for one block of the chain.
-/

set_option autoImplicit false

namespace Phoenixcoin.Program

def int32OfNat (n : ℕ) : Option ℕ := if n < 2 ^ 31 then some n else none

namespace ChainState

variable (s : ChainState)

/-! ## Building a locator -/

/-- The loop of `Set` over `pprev`. -/
def stepBack : ℕ → Option uint256 → Option uint256
  | 0, pindex => pindex
  | nStep + 1, pindex => stepBack nStep (pindex.bind s.pprev)

/-- The outer loop of `Set`. -/
def locatorLoop : ℕ → ℕ → List uint256 → Option uint256 → Option (List uint256)
  | _, _, vHave, none => some vHave
  | 0, _, _, some _ => none
  | fuel + 1, nStep, vHave, some pindex => do
    let vHave := vHave ++ [pindex]
    let nStepNext ← (if vHave.length > 10 then int32OfNat (nStep * 2) else some nStep)
    locatorLoop fuel nStepNext vHave (s.stepBack nStep (some pindex))

/-- `CBlockLocator::Set`. There are no more rounds than entries in the index. -/
def locatorSet (hashGenesisBlock pindex : uint256) : Option (List uint256) :=
  (s.locatorLoop s.size 1 [] (some pindex)).map fun vHave => vHave ++ [hashGenesisBlock]

/-! ## Reading a locator -/

/-- The hash is in `mapBlockIndex`, and its entry is in the main chain. -/
def IsInMainChain (hash : uint256) : Bool :=
  (s.entry hash).isSome && ((s.pnext hash).isSome || s.pindexBest = some hash)

/-- `CBlockLocator::GetBlockIndex`. -/
def locatorGetBlockIndex (vHave : List uint256) : Option uint256 :=
  (vHave.find? s.IsInMainChain).or s.pindexGenesisBlock

def distanceLoop (nDistance nStep : ℕ) : List uint256 → Option ℕ
  | [] => some nDistance
  | hash :: vHave =>
    if s.IsInMainChain hash then some nDistance
    else do
      let nDistance ← int32OfNat (nDistance + nStep)
      let nStep ← (if nDistance > 10 then int32OfNat (nStep * 2) else some nStep)
      distanceLoop nDistance nStep vHave

/-- `CBlockLocator::GetDistanceBack`. -/
def locatorGetDistanceBack (vHave : List uint256) : Option ℕ := s.distanceLoop 0 1 vHave

/-! ## Heights -/

/-- The loop of `FindBlockByHeight` over `pnext`. -/
def raiseTo (nHeight : ℕ) : ℕ → uint256 → Option uint256
  | 0, _ => none
  | n + 1, pblockindex =>
    if s.nHeight pblockindex < nHeight then (s.pnext pblockindex).bind (raiseTo nHeight n)
    else some pblockindex

/-- Where `FindBlockByHeight` starts: at an end of the chain, or at the block that it remembers. -/
def findStart (nHeight : ℕ) : Option uint256 := do
  let pblockindex ←
    (if (nHeight : ℤ) < s.nBestHeight.tdiv 2 then s.pindexGenesisBlock else s.pindexBest)
  let distance (hash : uint256) : ℕ := ((nHeight : ℤ) - s.nHeight hash).natAbs
  match s.pblockindexFBBHLast with
  | some pindexLast =>
    if distance pblockindex > distance pindexLast then some pindexLast else some pblockindex
  | none => some pblockindex

/-- `FindBlockByHeight`: the block, and the state that remembers it. No caller passes a negative
height; a null pointer that the source would follow gives none. -/
def findBlockByHeight (nHeight : ℕ) : Option (uint256 × ChainState) := do
  let pblockindex ← s.findStart nHeight
  let pblockindex ← s.lowerTo nHeight s.size pblockindex
  let pblockindex ← s.raiseTo nHeight s.size pblockindex
  return (pblockindex, { s with pblockindexFBBHLast := some pblockindex })

end ChainState

end Phoenixcoin.Program
