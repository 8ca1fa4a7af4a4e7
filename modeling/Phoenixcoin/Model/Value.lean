import Phoenixcoin.Model.IndexEffect

/-!
# The value of the unspent outputs

The index stores no amounts: the value of an output is read from the transaction that the
entry points to. Here `readTx` is that read. Spending an outpoint takes its value away from
the total, and a new entry adds the values of its outputs.
-/

set_option autoImplicit false

namespace Phoenixcoin.Model

open Lib Program List

/-- The sum of the output values whose slots are null. -/
def unspentSum : List CTxOut → List CDiskTxPos → ℤ
  | txout :: vout, slot :: vSpent =>
    (if slot.IsNull then txout.nValue else 0) + unspentSum vout vSpent
  | _, _ => 0

theorem unspentSum_replicate (vout : List CTxOut) :
    unspentSum vout (List.replicate vout.length CDiskTxPos.null) =
      (vout.map CTxOut.nValue).sum := by
  induction vout with
  | nil => rfl
  | cons txout vout ih =>
    rw [length_cons, replicate_succ, unspentSum, ih,
      if_pos CDiskTxPos.isNull_null, map_cons, sum_cons]

theorem unspentSum_nonneg {vout : List CTxOut} (h : ∀ txout ∈ vout, 0 ≤ txout.nValue) :
    ∀ vSpent, 0 ≤ unspentSum vout vSpent := by
  induction vout with
  | nil => intro vSpent; cases vSpent <;> simp [unspentSum]
  | cons txout vout ih =>
    intro vSpent
    cases vSpent with
    | nil => simp [unspentSum]
    | cons slot vSpent =>
      have hhead : 0 ≤ txout.nValue := h txout mem_cons_self
      have htail := ih (fun o ho => h o (mem_cons_of_mem _ ho)) vSpent
      unfold unspentSum
      split <;> omega

theorem unspentSum_set {pos : CDiskTxPos} (hpos : ¬ pos.IsNull) (vout : List CTxOut) :
    ∀ (vSpent : List CDiskTxPos) (n : ℕ) (slot : CDiskTxPos), vSpent[n]? = some slot →
      slot.IsNull →
      unspentSum vout (vSpent.set n pos) =
        unspentSum vout vSpent - vout[n]?.elim 0 CTxOut.nValue := by
  induction vout with
  | nil =>
    intro vSpent n slot hslot hnull
    cases vSpent <;> cases n <;> simp [unspentSum]
  | cons txout vout ih =>
    intro vSpent n slot hslot hnull
    cases vSpent with
    | nil => contradiction
    | cons slot0 vSpent =>
      cases n with
      | zero =>
        cases hslot
        simp [unspentSum, hpos, hnull]
      | succ n =>
        have hrec := ih vSpent n slot hslot hnull
        simp only [set_cons_succ, unspentSum, getElem?_cons_succ, hrec]
        omega

variable (readTx : CDiskTxPos → Option CTransaction)

/-- The value of the unspent outputs of one entry. -/
def unspentValue (e : CTxIndex) : ℤ :=
  (readTx e.pos).elim 0 fun tx => unspentSum tx.vout e.vSpent

/-- The value of the unspent outputs that the index records. -/
def unspentTotal (index : TxIndexTable) : ℤ := Table.total (unspentValue readTx) index

/-- The value of an outpoint of the index. -/
def outputValue (index : TxIndexTable) (o : COutPoint) : ℤ :=
  ((index.lookup o.hash).bind fun e => (readTx e.pos).bind fun tx => tx.vout[o.n]?).elim 0
    CTxOut.nValue

theorem unspentTotal_setSpent {index : TxIndexTable} {o : COutPoint} {slot pos : CDiskTxPos}
    (hslot : spentSlot index o = some slot) (hnull : slot.IsNull) (hpos : ¬ pos.IsNull) :
    unspentTotal readTx (setSpent o pos index) =
      unspentTotal readTx index - outputValue readTx index o := by
  cases he : index.lookup o.hash with
  | none =>
    rw [spentSlot, he] at hslot
    contradiction
  | some e =>
    rw [spentSlot, he] at hslot
    have hvalue : unspentValue readTx { e with vSpent := e.vSpent.set o.n pos } =
        unspentValue readTx e - outputValue readTx index o := by
      unfold unspentValue outputValue
      rw [he]
      cases hread : readTx e.pos with
      | none => simp [hread]
      | some tx => simp [hread, unspentSum_set hpos tx.vout e.vSpent o.n slot hslot hnull]
    unfold unspentTotal at *
    rw [setSpent_of_lookup he, Table.total_insert, he, Option.elim_some]
    omega

theorem outputValue_setSpent (o o' : COutPoint) (pos : CDiskTxPos) (index : TxIndexTable) :
    outputValue readTx (setSpent o pos index) o' = outputValue readTx index o' := by
  unfold outputValue
  rw [lookup_setSpent]
  split
  · cases index.lookup o'.hash <;> rfl
  · rfl

/-- Spending outpoints takes their values away from the total. -/
theorem foldlM_spendOutput_total {pos : CDiskTxPos} (hpos : ¬ pos.IsNull) {outs : List COutPoint} :
    ∀ {index index' : TxIndexTable}, outs.foldlM (spendOutput pos) index = some index' →
      unspentTotal readTx index' =
        unspentTotal readTx index - (outs.map (outputValue readTx index)).sum := by
  induction outs with
  | nil =>
    intro index index' h
    cases h
    simp
  | cons o outs ih =>
    intro index index' h
    obtain ⟨mid, hmid, hrest⟩ := foldlM_cons_eq_some.mp h
    obtain ⟨⟨slot, hslot, hnull⟩, rfl⟩ := spendOutput_eq_some.mp hmid
    have hkeep : outs.map (outputValue readTx (setSpent o pos index)) =
        outs.map (outputValue readTx index) :=
      map_congr_left fun o' _ => outputValue_setSpent readTx o o' pos index
    rw [ih hrest, unspentTotal_setSpent readTx hslot hnull hpos, hkeep, map_cons, sum_cons]
    omega

end Phoenixcoin.Model
