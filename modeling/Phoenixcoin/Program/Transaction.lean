import Mathlib.Data.List.Nodup
import Mathlib.Algebra.BigOperators.Group.List.Basic
import Mathlib.Tactic.Linarith

/-!
# Transactions and blocks

The data of `main.h` that blocks are made of: outpoints, inputs, outputs, transactions and
blocks, with the checks on them that need no context. Hashes are numbers, and `0` is the
null hash; amounts are exact integers.
-/

set_option autoImplicit false

namespace Phoenixcoin.Program

abbrev uint256 : Type := ℕ

abbrev CScript : Type := List UInt8

/-- The number `std::numeric_limits<uint32_t>::max()` that null positions carry. -/
def uintMax : ℕ := 0xFFFFFFFF

/-- `COIN`, the number of base units in one coin. -/
def COIN : ℤ := 100000000

def MAX_MONEY : ℤ := 10000000 * COIN

def MAX_BLOCK_SIZE : ℕ := 1000000

def MAX_BLOCK_SIGOPS : ℕ := MAX_BLOCK_SIZE / 2 ^ 6

def MoneyRange (nValue : ℤ) : Prop := 0 ≤ nValue ∧ nValue ≤ MAX_MONEY

instance : DecidablePred MoneyRange := fun _ => inferInstanceAs (Decidable (_ ∧ _))

/-- An output named by the transaction that made it and its position there. -/
structure COutPoint where
  hash : uint256
  n : ℕ
deriving DecidableEq, Repr

def COutPoint.IsNull (o : COutPoint) : Prop := o.hash = 0 ∧ o.n = uintMax

instance : DecidablePred COutPoint.IsNull := fun _ => inferInstanceAs (Decidable (_ ∧ _))

structure CTxIn where
  prevout : COutPoint
  scriptSig : CScript
  nSequence : ℕ := uintMax
deriving DecidableEq, Repr

structure CTxOut where
  nValue : ℤ
  scriptPubKey : CScript
deriving DecidableEq, Repr

structure CTransaction where
  nVersion : ℤ := 1
  vin : List CTxIn
  vout : List CTxOut
  nLockTime : ℕ := 0
deriving DecidableEq, Repr

/-! ## Serialised sizes -/

def getSizeOfCompactSize (nSize : ℕ) : ℕ :=
  if nSize < 253 then 1
  else if nSize ≤ 0xFFFF then 3
  else if nSize ≤ 0xFFFFFFFF then 5
  else 9

def scriptSerializeSize (script : CScript) : ℕ :=
  getSizeOfCompactSize script.length + script.length

def CTxIn.getSerializeSize (txin : CTxIn) : ℕ :=
  36 + scriptSerializeSize txin.scriptSig + 4

def CTxOut.getSerializeSize (txout : CTxOut) : ℕ :=
  8 + scriptSerializeSize txout.scriptPubKey

def CTransaction.getSerializeSize (tx : CTransaction) : ℕ :=
  4 + (getSizeOfCompactSize tx.vin.length + (tx.vin.map CTxIn.getSerializeSize).sum)
    + (getSizeOfCompactSize tx.vout.length + (tx.vout.map CTxOut.getSerializeSize).sum) + 4

/-! ## Checks on one transaction -/

/-- `CTransaction::IsCoinBase`: one input, and its outpoint is null. -/
def CTransaction.IsCoinBase (tx : CTransaction) : Prop :=
  tx.vin.length = 1 ∧ ∀ txin ∈ tx.vin, txin.prevout.IsNull

instance : DecidablePred CTransaction.IsCoinBase := fun _ => inferInstanceAs (Decidable (_ ∧ _))

/-- The loop of `CTransaction::GetValueOut`; `none` is the exception it throws. -/
def getValueOutFrom : ℤ → List CTxOut → Option ℤ
  | nValueOut, [] => some nValueOut
  | nValueOut, txout :: vout =>
    if ¬ MoneyRange txout.nValue ∨ ¬ MoneyRange (nValueOut + txout.nValue) then none
    else getValueOutFrom (nValueOut + txout.nValue) vout

def CTransaction.getValueOut (tx : CTransaction) : Option ℤ := getValueOutFrom 0 tx.vout

/-- The loop of `CTransaction::CheckTransaction` over the output values. -/
def checkOutputValues : ℤ → List CTxOut → Bool
  | _, [] => true
  | nValueOut, txout :: vout =>
    if txout.nValue < 0 then false
    else if txout.nValue > MAX_MONEY then false
    else if ¬ MoneyRange (nValueOut + txout.nValue) then false
    else checkOutputValues (nValueOut + txout.nValue) vout

def CTransaction.checkTransaction (tx : CTransaction) : Bool :=
  if tx.vin.isEmpty then false
  else if tx.vout.isEmpty then false
  else if tx.getSerializeSize > MAX_BLOCK_SIZE then false
  else if ¬ checkOutputValues 0 tx.vout then false
  else if ¬ (tx.vin.map CTxIn.prevout).Nodup then false
  else if tx.IsCoinBase then
    tx.vin.all fun txin => 2 ≤ txin.scriptSig.length && txin.scriptSig.length ≤ 200000
  else tx.vin.all fun txin => ¬ txin.prevout.IsNull

variable {tx : CTransaction} {vout : List CTxOut}

theorem CTransaction.nodup_of_checkTransaction (h : tx.checkTransaction = true) :
    (tx.vin.map CTxIn.prevout).Nodup := by
  unfold CTransaction.checkTransaction at h
  by_contra hnodup
  simp [hnodup] at h

theorem nonneg_of_checkOutputValues :
    ∀ {nValueOut : ℤ}, checkOutputValues nValueOut vout = true →
      ∀ txout ∈ vout, 0 ≤ txout.nValue := by
  induction vout with
  | nil => simp
  | cons txout vout ih =>
    intro nValueOut h
    unfold checkOutputValues at h
    split at h
    · contradiction
    · next hneg =>
      split at h
      · contradiction
      · split at h
        · contradiction
        · intro o ho
          rcases List.mem_cons.mp ho with rfl | ho
          · omega
          · exact ih h o ho

theorem CTransaction.nonneg_of_checkTransaction (h : tx.checkTransaction = true) :
    ∀ txout ∈ tx.vout, 0 ≤ txout.nValue := by
  suffices hvalues : checkOutputValues 0 tx.vout = true from nonneg_of_checkOutputValues hvalues
  by_contra hvalues
  unfold CTransaction.checkTransaction at h
  simp [hvalues] at h

/-- When the loop of `GetValueOut` does not throw it adds up the output values. -/
theorem getValueOutFrom_eq_some :
    ∀ {nValueOut v : ℤ}, getValueOutFrom nValueOut vout = some v →
      v = nValueOut + (vout.map CTxOut.nValue).sum := by
  induction vout with
  | nil =>
    simp [getValueOutFrom, eq_comm]
  | cons txout vout ih =>
    intro nValueOut v h
    unfold getValueOutFrom at h
    split at h
    · contradiction
    · rw [ih h]
      rw [List.map_cons, List.sum_cons, add_assoc]

theorem CTransaction.getValueOut_eq_some {v : ℤ} (h : tx.getValueOut = some v) :
    v = (tx.vout.map CTxOut.nValue).sum := by
  simpa using getValueOutFrom_eq_some h

/-! ## Blocks -/

structure CBlockHeader where
  nVersion : ℤ
  hashPrevBlock : uint256
  hashMerkleRoot : uint256
  nTime : ℕ
  nBits : ℕ
  nNonce : ℕ
deriving DecidableEq, Repr

structure CBlock extends CBlockHeader where
  vtx : List CTransaction
deriving DecidableEq, Repr

def CBlock.getSerializeSize (block : CBlock) : ℕ :=
  80 + (getSizeOfCompactSize block.vtx.length + (block.vtx.map CTransaction.getSerializeSize).sum)

end Phoenixcoin.Program
