import Phoenixcoin.Program.Script

/-!
# Addresses, hybrid scripts and positions in scripts

`ExtractDestinations` of `script.cpp` with the functions that make hybrid scripts, and
`CScript::GetOp2` of `script.h` as it moves a position, with the bytes it looks at and the 32 bits
in which it compares what is left of the script with the size of an operand.
-/

set_option autoImplicit false

namespace Phoenixcoin.Program

open txnouttype

/-- `ExtractDestinations`: the form of a script, all its addresses and the required signatures. -/
def ExtractDestinations (D : Digests) (scriptPubKey : CScript) :
    Option (txnouttype × List CTxDestination × ℕ) :=
  match Solver scriptPubKey with
  | some (TX_PUBKEY, vch :: _) => some (TX_PUBKEY, [.key (D.Hash160 vch)], 1)
  | some (TX_PUBKEYHASH, vch :: _) => some (TX_PUBKEYHASH, [.key (uint160OfBytes vch)], 1)
  | some (TX_SCRIPTHASH, vch :: _) => some (TX_SCRIPTHASH, [.script (uint160OfBytes vch)], 1)
  | some (TX_HYBRID_PUBKEY, [ecdsaPub, mldsaPub]) =>
    some (TX_HYBRID_PUBKEY, [.hybridKey (D.Hash160 (ecdsaPub ++ mldsaPub))], 1)
  | some (TX_HYBRID_PUBKEYHASH, [vch]) =>
    some (TX_HYBRID_PUBKEYHASH, [.hybridKey (uint160OfBytes vch)], 1)
  | some (TX_MULTISIG, vchM :: vSolutions) =>
    some (TX_MULTISIG, vSolutions.dropLast.map fun vch => .key (D.Hash160 vch),
      (vchM.headD 0).toNat)
  | _ => none

/-! ## Hybrid scripts -/

def EncodeOP_N (n : ℕ) : opcodetype := if n = 0 then OP_0 else OP_1 + UInt8.ofNat n - 1

structure CHybridPubKey where
  ecdsaPubKey : valtype
  mldsaPubKey : valtype
deriving DecidableEq, Repr

def CHybridPubKey.IsValid (key : CHybridPubKey) : Bool :=
  key.ecdsaPubKey.length = 33 && key.mldsaPubKey.length = 1952

def GetScriptForHybridPubKeyHash (hash : uint160) : CScript :=
  [OP_DUPHYBRID, OP_HASHHYBRID160] ++ pushData (toLittleEndian 20 hash) ++
    [OP_EQUALVERIFY, OP_CHECKHYBRIDSIG]

def GetScriptForHybridMultisig (nRequired : ℤ) (keys : List CHybridPubKey) : CScript :=
  if nRequired < 1 ∨ nRequired > 16 then []
  else if keys = [] ∨ keys.length > 16 then []
  else if nRequired > keys.length then []
  else if keys.any fun key => !key.IsValid then []
  else
    EncodeOP_N nRequired.toNat ::
      ((keys.flatMap fun key => pushData key.ecdsaPubKey ++ pushData key.mldsaPubKey) ++
        [EncodeOP_N keys.length, OP_CHECKMULTIHYBRIDSIG])

/-! ## Reading by position -/

section Reader

variable (script : CScript)

/-- Bytes of a script; there are none behind its end. -/
def bytesAt (pc n : ℕ) : Option valtype :=
  if pc + n ≤ script.length then some ((script.drop pc).take n) else none

/-- The size bytes of an operand, and the position behind them. -/
def sizeAt (pc nBytes : ℕ) : Option (Option (ℕ × ℕ)) :=
  if script.length - pc < nBytes then some none
  else do
    let bytes ← bytesAt script pc nBytes
    some (some (ofLittleEndian bytes, pc + nBytes))

/-- `GetOp2`; the outer `none` is a read behind the end, the inner one its failure. -/
def GetOp2 (pc : ℕ) : Option (Option (opcodetype × valtype × ℕ)) :=
  if pc ≥ script.length then some none
  else do
    let opcode ← script[pc]?
    let pc := pc + 1
    if opcode ≤ OP_PUSHDATA4 then
      let operand ← (if opcode < OP_PUSHDATA1 then some (some (opcode.toNat, pc))
        else if opcode = OP_PUSHDATA1 then sizeAt script pc 1
        else if opcode = OP_PUSHDATA2 then sizeAt script pc 2
        else sizeAt script pc 4)
      match operand with
      | none => some none
      | some (nSize, pc) =>
        if script.length < pc ∨ (script.length - pc) % 2 ^ 32 < nSize then some none
        else do
          let vch ← bytesAt script pc nSize
          some (some (opcode, vch, pc + nSize))
    else some (some (opcode, [], pc))

/-- `IsPushOnly` from a position on; every round moves it, so the length is fuel enough. -/
def isPushOnlyAt : ℕ → ℕ → Option Bool
  | 0, _ => some true
  | fuel + 1, pc =>
    if pc ≥ script.length then some true
    else do
      match ← GetOp2 script pc with
      | none => some false
      | some (opcode, _, pc) => if opcode > OP_16 then some false else isPushOnlyAt fuel pc

end Reader

end Phoenixcoin.Program
