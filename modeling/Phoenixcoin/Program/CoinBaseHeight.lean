import Phoenixcoin.Program.AcceptBlock
import Phoenixcoin.Program.Miner

/-!
# The height in the coinbase

How `AcceptBlock` compares the start of the coinbase script with the height of the block, and how
`GetHashPoW` chooses the hash function by the height that `GetBlockHeight` reads there.
-/

set_option autoImplicit false

namespace Phoenixcoin.Program

/-! ## The comparison of AcceptBlock -/

/-- What lies `i` bytes behind the start of a buffer; `beyond` is the memory around it. -/
def byteAt (beyond : ℕ → UInt8) (buffer : CScript) (i : ℕ) : UInt8 := buffer.getD i (beyond i)

/-- `std::equal` of `expect` with what `it` points at: the positions behind `it` that are read, and
the result. It stops at the first difference and knows no end of the second range. -/
def stdEqual (it : ℕ → UInt8) : ℕ → CScript → List ℕ × Bool
  | _, [] => ([], true)
  | i, b :: expect =>
    if b = it i then (i :: (stdEqual it (i + 1) expect).1, (stdEqual it (i + 1) expect).2)
    else ([i], false)

/-- The comparison of the coinbase with `CScript() << nHeight`. -/
def compareCoinBaseHeight (beyond : ℕ → UInt8) (nHeight : ℤ) (block : CBlock) : List ℕ × Bool :=
  stdEqual (byteAt beyond block.coinBaseScript) 0 (pushInt64 nHeight)

/-! ## The proof-of-work profile -/

/-- `CBlock::GetBlockHeight`. The bytes of the `int` that are not written are zero. -/
def CBlock.GetBlockHeight (block : CBlock) : ℤ :=
  match block.vtx with
  | [] => -1
  | tx :: _ =>
    match tx.vin with
    | [] => -1
    | txin :: _ =>
      match txin.scriptSig with
      | [] => -1
      | scount :: bytes =>
        if scount < 4 ∧ scount.toNat ≤ bytes.length then
          ofLittleEndian (bytes.take scount.toNat)
        else -1

/-- The profile of a height: Scrypt up to the last hard fork, NeoScrypt from there on. -/
def heightProfile (fTestNet : Bool) (nHeight : ℤ) : ℕ :=
  if fTestNet then
    if nHeight < nTestnetForkTwo then 0x3 else 0x0
  else
    if nHeight < nForkFive then 0x3 else 0x0

/-- The profile with which `GetHashPoW` calls `neoscrypt`. -/
def CBlock.powProfile (fTestNet : Bool) (nNeoScryptOptions : ℕ) (block : CBlock) : ℕ :=
  (if block.nTime < (if fTestNet then nTestnetSwitchV2 else nSwitchV2) then 0x3
    else heightProfile fTestNet block.GetBlockHeight) ||| nNeoScryptOptions

end Phoenixcoin.Program
