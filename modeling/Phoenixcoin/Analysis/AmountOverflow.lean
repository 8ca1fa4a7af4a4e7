import Phoenixcoin.Analysis.MinedBlocks
import Phoenixcoin.Program.AmountTraces

/-!
# Overflow of amounts

Where recorded values are in the money range, `ConnectInputs` stays far from the limits of an
`int64`, since it checks every sum. `GetValueIn`, the fees of a block and the sums of the miner
have no such check: they stay in range exactly if the values of the referenced outputs, and the
fees, add up to less than the limit.
-/

set_option autoImplicit false

namespace Phoenixcoin.Analysis

open Lib Program List Option

/-- No sum or difference leaves the range. -/
def NoOverflow (amounts : List ℤ) : Prop := ∀ n ∈ amounts, FitsInt64 n

@[simp]
theorem noOverflow_nil : NoOverflow [] := by simp [NoOverflow]

variable {n : ℤ} {tx : CTransaction}

variable {l : List ℤ} {v : ℤ} {vout : List CTxOut}

@[simp]
theorem noOverflow_cons : NoOverflow (n :: l) ↔ FitsInt64 n ∧ NoOverflow l := by
  simp [NoOverflow]

@[simp]
theorem noOverflow_append {l' : List ℤ} : NoOverflow (l ++ l') ↔ NoOverflow l ∧ NoOverflow l' := by
  simp only [NoOverflow, forall_mem_append]

theorem fitsInt64_of_moneyRange {m : ℤ} (hn : MoneyRange n) (hm : MoneyRange m) :
    FitsInt64 (n + m) ∧ FitsInt64 (n - m) := by
  unfold MoneyRange MAX_MONEY COIN at hn hm
  unfold FitsInt64
  omega

theorem noOverflow_runningSums_iff {A : Type} {value : A → Option ℤ} (l : List A)
    (hvalues : ∀ a v, value a = some v → 0 ≤ v) :
    NoOverflow (runningSums value 0 l) ↔ (valuesOf value l).sum < 2 ^ 63 := by
  have hlt := runningSums_lt_iff l (show (0 : ℤ) < 2 ^ 63 by norm_num) hvalues
  rw [zero_add] at hlt
  rw [← hlt]
  refine forall₂_congr fun m hm => ?_
  have hlow : 0 ≤ m := le_of_mem_runningSums hvalues hm
  constructor
  · exact fun hfits => hfits.2
  · intro hhigh
    exact ⟨by omega, hhigh⟩

/-! ## Outputs -/

theorem getValueOutFrom_range (hn : MoneyRange n) (h : getValueOutFrom n vout = some v) :
    MoneyRange v := by
  induction vout generalizing n with
  | nil =>
    cases h
    exact hn
  | cons txout vout ih =>
    unfold getValueOutFrom at h
    split at h
    · cases h
    · next hrange =>
      rw [not_or, not_not, not_not] at hrange
      exact ih hrange.2 h

theorem moneyRange_zero : MoneyRange 0 := by
  unfold MoneyRange MAX_MONEY COIN
  omega

theorem getValueOut_range (h : tx.getValueOut = some v) :
    MoneyRange v :=
  getValueOutFrom_range moneyRange_zero h

theorem getValueOutFrom_of_check (h : checkOutputValues n vout = true) :
    getValueOutFrom n vout = some (n + (vout.map CTxOut.nValue).sum) ∧
      ∀ txout ∈ vout, MoneyRange txout.nValue := by
  induction vout generalizing n with
  | nil => simp [getValueOutFrom]
  | cons txout vout ih =>
    unfold checkOutputValues at h
    unfold getValueOutFrom
    split at h
    · cases h
    · split at h
      · cases h
      · split at h
        · cases h
        · next hlow hhigh hrange =>
          have hvalue : MoneyRange txout.nValue := ⟨not_lt.mp hlow, not_lt.mp hhigh⟩
          obtain ⟨hrest, hall⟩ := ih h
          rw [if_neg (by simp [hvalue, hrange]), hrest, add_assoc]
          exact ⟨rfl, forall_mem_cons.mpr ⟨hvalue, hall⟩⟩

def outTotal (tx : CTransaction) : ℤ := (tx.vout.map CTxOut.nValue).sum

theorem checkOutputValues_of_check (h : tx.checkTransaction = true) :
    checkOutputValues 0 tx.vout = true := by
  by_contra hvalues
  unfold CTransaction.checkTransaction at h
  simp [hvalues] at h

theorem getValueOut_of_check (h : tx.checkTransaction = true) :
    tx.getValueOut = some (outTotal tx) := by
  have hvalue := (getValueOutFrom_of_check (checkOutputValues_of_check h)).1
  rwa [zero_add] at hvalue

theorem moneyRange_of_check (h : tx.checkTransaction = true) :
    ∀ txout ∈ tx.vout, MoneyRange txout.nValue :=
  (getValueOutFrom_of_check (checkOutputValues_of_check h)).2

/-! ## Inputs -/

def InputsInRange (inputs : MapPrevTx) : Prop :=
  ∀ hash prev, inputs.lookup hash = some prev → ∀ txout ∈ prev.2.vout, MoneyRange txout.nValue

/-- The sum of the values that a transaction spends, up to the first input without an output. -/
def spentTotal (inputs : MapPrevTx) (tx : CTransaction) : ℤ :=
  if tx.IsCoinBase then 0 else (valuesOf (valueOfInput inputs) tx.vin).sum

section Inputs

variable {env : ChainEnv} {ctx : NodeContext} {inputs : MapPrevTx} {tx : CTransaction}
  {pindexBlock : CBlockIndex} {pprevs : List CBlockIndex}

theorem valueOfInput_range (h : InputsInRange inputs) (txin : CTxIn) (v : ℤ)
    (hv : valueOfInput inputs txin = some v) : MoneyRange v := by
  obtain ⟨txout, hout, rfl⟩ := map_eq_some_iff.mp hv
  obtain ⟨prev, hprev, hget⟩ := bind_eq_some_iff.mp hout
  exact h txin.prevout.hash prev hprev txout (mem_of_getElem? hget)

theorem noOverflow_valueInAmounts_iff (h : InputsInRange inputs) :
    NoOverflow (valueInAmounts inputs tx) ↔ spentTotal inputs tx < 2 ^ 63 := by
  unfold valueInAmounts spentTotal
  split
  · simp
  · exact noOverflow_runningSums_iff tx.vin fun txin v hv => (valueOfInput_range h txin v hv).1

theorem spentTotal_nonneg (h : InputsInRange inputs) : 0 ≤ spentTotal inputs tx := by
  unfold spentTotal
  split
  · exact le_rfl
  · exact valuesOf_sum_nonneg tx.vin fun txin v hv => (valueOfInput_range h txin v hv).1

theorem getValueIn_eq_spentTotal {v : ℤ} (h : getValueIn inputs tx = some v) :
    v = spentTotal inputs tx := by
  unfold getValueIn at h
  unfold spentTotal
  split at h
  · next hcoinBase =>
    cases h
    rw [if_pos hcoinBase]
  · next hcoinBase =>
    rw [if_neg hcoinBase]
    have hstep : (fun (nResult : ℤ) (txin : CTxIn) => (getOutputFor inputs txin).map fun txout =>
        nResult + txout.nValue) = addValue (valueOfInput inputs) := by
      funext nResult txin
      simp [addValue, valueOfInput, Function.comp_def]
    rw [hstep] at h
    rw [foldlM_addValue h, zero_add]

variable {n' : ℤ} {txin : CTxIn}

/-- What a round of the first loop of `ConnectInputs` adds. -/
theorem checkInput_eq_some (h : checkInput env inputs pindexBlock pprevs n txin = some n') :
    MoneyRange n' ∧ ∃ v, valueOfInput inputs txin = some v ∧ n' = n + v := by
  simp only [checkInput, bind_eq_bind, bind_eq_some_iff, exists_guard_eq_some,
    Option.pure_def, Option.some.injEq] at h
  obtain ⟨⟨txindex, txPrev⟩, hprev, txout, hout, -, -, ⟨-, hrange⟩, rfl⟩ := h
  refine ⟨hrange, txout.nValue, ?_, rfl⟩
  simp [valueOfInput, getOutputFor, hprev, hout]

theorem outputToAdd_range (h : InputsInRange inputs) {txout : CTxOut}
    (hout : outputToAdd env inputs pindexBlock pprevs txin = some txout) :
    MoneyRange txout.nValue := by
  simp only [outputToAdd, bind_eq_bind, bind_eq_some_iff, exists_guard_eq_some,
    Option.pure_def, Option.some.injEq] at hout
  obtain ⟨prev, hprev, txout', hget, -, -, rfl⟩ := hout
  exact h txin.prevout.hash prev hprev txout' (mem_of_getElem? hget)

theorem checkInputs_eq_some {vin : List CTxIn} (hn : MoneyRange n)
    (h : vin.foldlM (checkInput env inputs pindexBlock pprevs) n = some n') :
    MoneyRange n' ∧ n' = n + (valuesOf (valueOfInput inputs) vin).sum := by
  induction vin generalizing n with
  | nil =>
    cases h
    exact ⟨hn, by simp [valuesOf]⟩
  | cons txin vin ih =>
    obtain ⟨m, hm, hrest⟩ := foldlM_cons_eq_some.mp h
    obtain ⟨hrange, v, hv, rfl⟩ := checkInput_eq_some hm
    obtain ⟨hrange', hsum⟩ := ih hrange hrest
    refine ⟨hrange', ?_⟩
    rw [hsum, valuesOf, hv, elim_some, sum_cons, add_assoc]

variable {mapTestPool mapTestPool' : TxIndexTable} {posThisTx : CDiskTxPos}
  {fBlock fMiner fStrictPayToScriptHash : Bool}

/-- `ConnectInputs` checks every sum before the next addition. -/
theorem noOverflow_connectInputsAmounts (h : InputsInRange inputs) :
    NoOverflow (connectInputsAmounts env ctx inputs mapTestPool posThisTx pindexBlock pprevs fBlock
      fMiner fStrictPayToScriptHash tx) := by
  unfold connectInputsAmounts
  split
  · exact noOverflow_nil
  · rw [noOverflow_append]
    constructor
    · refine forall_mem_runTrace_of_invariant (I := MoneyRange) ?_ ?_ moneyRange_zero
      · intro n hn txin _ m hm
        obtain ⟨txout, hout, rfl⟩ := mem_map.mp hm
        exact (fitsInt64_of_moneyRange hn (outputToAdd_range h (mem_toList.mp hout))).1
      · exact fun n _ txin _ n' hstep => (checkInput_eq_some hstep).1
    · cases hrest : (do
        let nValueIn ← tx.vin.foldlM (checkInput env inputs pindexBlock pprevs) 0
        let _ ← tx.vin.zipIdx.foldlM
          (spendInput env ctx tx posThisTx fBlock fMiner fStrictPayToScriptHash)
          (inputs, mapTestPool)
        let nValueOut ← tx.getValueOut
        guard (¬ nValueIn < nValueOut)
        return [nValueIn - nValueOut, 0 + (nValueIn - nValueOut)] : Option (List ℤ)) with
      | none => exact noOverflow_nil
      | some l =>
        simp only [bind_eq_bind, bind_eq_some_iff, exists_guard_eq_some,
          Option.pure_def, Option.some.injEq] at hrest
        obtain ⟨nValueIn, hin, -, -, nValueOut, hout, -, rfl⟩ := hrest
        have hfits := fitsInt64_of_moneyRange (checkInputs_eq_some moneyRange_zero hin).1
          (getValueOut_range hout)
        simp [hfits.2]

/-- The fee of a transaction that `ConnectInputs` accepts. -/
theorem fee_of_connectInputs (hcoinBase : ¬ tx.IsCoinBase)
    (h : connectInputs env ctx inputs mapTestPool posThisTx pindexBlock pprevs fBlock fMiner
      fStrictPayToScriptHash tx = some mapTestPool') :
    MoneyRange (spentTotal inputs tx - outTotal tx) := by
  rw [connectInputs, if_neg hcoinBase] at h
  simp only [bind_eq_bind, bind_eq_some_iff, exists_guard_eq_some, Option.pure_def,
    Option.some.injEq] at h
  obtain ⟨nValueIn, hin, -, -, nValueOut, hout, -, hrange, -⟩ := h
  unfold spentTotal
  rw [if_neg hcoinBase, outTotal, ← tx.getValueOut_eq_some hout, ← zero_add (sum _),
    ← (checkInputs_eq_some moneyRange_zero hin).2]
  exact hrange

end Inputs

/-! ## What `FetchInputs` finds -/

def RecordsInRange (env : ChainEnv) : Prop :=
  ∀ pos tx, env.readTxFromDisk pos = some tx → ∀ txout ∈ tx.vout, MoneyRange txout.nValue

/-- All transactions of the memory pool have passed `CheckTransaction`. -/
def PoolChecked (mapTx : Table uint256 CTransaction) : Prop :=
  ∀ hash tx, mapTx.lookup hash = some tx → tx.checkTransaction = true

section Fetching

variable {env : ChainEnv} {ctx : NodeContext} {outcome : DbOutcome} {txdb : CTxDB}
  {mapTestPool : TxIndexTable} {fBlock fMiner : Bool} {tx : CTransaction} {inputs : MapPrevTx}

theorem fetchPrevTx_range (hrecords : RecordsInRange env) (hpool : PoolChecked ctx.mapTx)
    {hashTx hash : uint256} {prev : CTxIndex × CTransaction}
    (h : fetchPrevTx env ctx outcome txdb mapTestPool fBlock fMiner hashTx hash = .ok prev) :
    ∀ txout ∈ prev.2.vout, MoneyRange txout.nValue := by
  have hread {txindex : CTxIndex} {txPrev : CTransaction}
      (hdisk : (if outcome (.readTx hashTx hash) then env.readTxFromDisk txindex.pos else none) =
        some txPrev) : ∀ txout ∈ txPrev.vout, MoneyRange txout.nValue := by
    split at hdisk
    · exact hrecords txindex.pos txPrev hdisk
    · cases hdisk
  have hlookup {txPrev : CTransaction} (hin : ctx.mapTx.lookup hash = some txPrev) :
      ∀ txout ∈ txPrev.vout, MoneyRange txout.nValue :=
    moneyRange_of_check (hpool hash txPrev hin)
  unfold fetchPrevTx at h
  dsimp only at h
  split at h
  · split at h
    · next hdisk =>
      cases h
      exact hread hdisk
    · cases h
  · split at h
    · next txPrev hin =>
      cases h
      split at hin
      · cases hin
      · exact hlookup hin
    · split at h
      · split at h
        · split at h
          · next txPrev hin =>
            cases h
            exact hlookup hin
          · cases h
        · split at h
          · next hdisk =>
            cases h
            exact hread hdisk
          · cases h
      · split at h
        · cases h
        · split at h
          · next txPrev hin =>
            cases h
            exact hlookup hin
          · cases h

theorem fetchInputs_range (hrecords : RecordsInRange env) (hpool : PoolChecked ctx.mapTx)
    (h : fetchInputs env ctx outcome txdb mapTestPool fBlock fMiner tx = .ok inputs) :
    InputsInRange inputs ∧
      (¬ tx.IsCoinBase → ∀ txin ∈ tx.vin, (valueOfInput inputs txin).isSome) := by
  have hempty : InputsInRange ∅ := by
    intro hash prev hlookup
    cases hlookup
  unfold fetchInputs at h
  split at h
  · next hcoinBase =>
    cases h
    exact ⟨hempty, fun hnot => absurd hcoinBase hnot⟩
  · obtain ⟨inputs', hloop, h⟩ := except_bind_eq_ok.mp h
    have hrange : InputsInRange inputs' := by
      refine foldlM_invariant_ok (P := InputsInRange) ?_ hempty hloop
      intro txin _ old new hold hstep
      unfold fetchInput at hstep
      split at hstep
      · cases hstep
        exact hold
      · cases hprev : fetchPrevTx env ctx outcome txdb mapTestPool fBlock fMiner (env.txHash tx)
            txin.prevout.hash with
        | error e =>
          rw [hprev] at hstep
          cases hstep
        | ok prev =>
          rw [hprev] at hstep
          cases hstep
          intro hash prev' hlookup
          rw [Table.lookup_insert_ite] at hlookup
          split at hlookup
          · cases hlookup
            exact fetchPrevTx_range hrecords hpool hprev
          · exact hold hash prev' hlookup
    split at h
    · next hall =>
      cases h
      refine ⟨hrange, fun _ txin htxin => ?_⟩
      have hin := all_eq_true.mp hall txin htxin
      unfold prevoutInRange at hin
      split at hin
      · next txindex txPrev hprev =>
        rw [Bool.and_eq_true, decide_eq_true_eq] at hin
        simp [valueOfInput, getOutputFor, hprev, hin.1]
      · cases hin
    · cases h

theorem fetchInputs_of_fetchPrevTx {prev : uint256 → CTxIndex × CTransaction}
    (hcoinBase : ¬ tx.IsCoinBase)
    (hprev : ∀ txin ∈ tx.vin, fetchPrevTx env ctx outcome txdb mapTestPool fBlock fMiner
      (env.txHash tx) txin.prevout.hash = .ok (prev txin.prevout.hash))
    (hrange : ∀ txin ∈ tx.vin, txin.prevout.n < (prev txin.prevout.hash).2.vout.length ∧
      txin.prevout.n < (prev txin.prevout.hash).1.vSpent.length) :
    ∃ inputs, fetchInputs env ctx outcome txdb mapTestPool fBlock fMiner tx = .ok inputs ∧
      ∀ txin ∈ tx.vin, inputs.lookup txin.prevout.hash = some (prev txin.prevout.hash) := by
  have hloop : ∀ (vin : List CTxIn) (inputs : MapPrevTx), (∀ txin ∈ vin, txin ∈ tx.vin) →
      (∀ hash p, inputs.lookup hash = some p → p = prev hash) →
      ∃ inputs', vin.foldlM (fetchInput env ctx outcome txdb mapTestPool fBlock fMiner
          (env.txHash tx)) inputs = .ok inputs' ∧
        (∀ hash p, inputs.lookup hash = some p → inputs'.lookup hash = some p) ∧
        ∀ txin ∈ vin, inputs'.lookup txin.prevout.hash = some (prev txin.prevout.hash) := by
    intro vin
    induction vin with
    | nil => exact fun inputs _ _ => ⟨inputs, rfl, fun _ _ h => h, forall_mem_nil _⟩
    | cons txin vin ih =>
      intro inputs hvin hinputs
      rw [forall_mem_cons] at hvin
      obtain ⟨mid, hmid, hkept, hold, hnow⟩ : ∃ mid, fetchInput env ctx outcome txdb mapTestPool
          fBlock fMiner (env.txHash tx) inputs txin = .ok mid ∧
          (∀ hash p, inputs.lookup hash = some p → mid.lookup hash = some p) ∧
          (∀ hash p, mid.lookup hash = some p → p = prev hash) ∧
          mid.lookup txin.prevout.hash = some (prev txin.prevout.hash) := by
        unfold fetchInput
        cases hlookup : inputs.lookup txin.prevout.hash with
        | some p =>
          refine ⟨inputs, rfl, fun _ _ h => h, hinputs, ?_⟩
          rw [hlookup, hinputs _ _ hlookup]
        | none =>
          rw [hprev txin hvin.1]
          refine ⟨_, rfl, ?_, ?_, ?_⟩
          · intro hash p hp
            rw [Table.lookup_insert_ite, if_neg, hp]
            rintro rfl
            exact some_ne_none p (hp.symm.trans hlookup)
          · intro hash p hp
            rw [Table.lookup_insert_ite] at hp
            split at hp
            · next heq =>
              rw [heq, Option.some.inj hp]
            · exact hinputs hash p hp
          · rw [Table.lookup_insert_ite, if_pos rfl]
      obtain ⟨inputs', hrun, hkept', hall⟩ := ih mid hvin.2 hold
      refine ⟨inputs', foldlM_cons_eq_ok.mpr ⟨mid, hmid, hrun⟩, ?_, ?_⟩
      · exact fun hash p hp => hkept' hash p (hkept hash p hp)
      · exact forall_mem_cons.mpr ⟨hkept' _ _ hnow, hall⟩
  obtain ⟨inputs, hrun, -, hall⟩ := hloop tx.vin ∅ (fun _ h => h) (by simp)
  refine ⟨inputs, ?_, hall⟩
  rw [fetchInputs, if_neg hcoinBase]
  refine except_bind_eq_ok.mpr ⟨inputs, hrun, ?_⟩
  have hchecked : (tx.vin.all fun txin => prevoutInRange inputs txin.prevout) = true := by
    rw [List.all_eq_true]
    intro txin htxin
    simp [prevoutInRange, hall txin htxin, hrange txin htxin]
  rw [if_pos hchecked]
  rfl

theorem getValueIn_of_isSome
    (h : ¬ tx.IsCoinBase → ∀ txin ∈ tx.vin, (valueOfInput inputs txin).isSome) :
    getValueIn inputs tx = some (spentTotal inputs tx) := by
  suffices hsome : (getValueIn inputs tx).isSome by
    obtain ⟨v, hv⟩ := isSome_iff_exists.mp hsome
    rw [hv, getValueIn_eq_spentTotal hv]
  unfold getValueIn
  split
  · rfl
  · next hcoinBase =>
    rw [foldlM_isSome_iff (P := fun _ _ => True)
      (p := fun txin => (valueOfInput inputs txin).isSome)
      (fun _ _ _ _ _ _ => trivial) (fun txin _ _ _ => by simp [valueOfInput]) trivial]
    exact h hcoinBase

end Fetching

/-! ## Blocks -/

def FeeFits (nFees : ℤ) (inputs : MapPrevTx) (tx : CTransaction) : Prop :=
  spentTotal inputs tx < 2 ^ 63 ∧ nFees + (spentTotal inputs tx - outTotal tx) < 2 ^ 63

theorem fitsInt64_fee_iff {nFees spent out : ℤ} (hfees : 0 ≤ nFees) (hspent : 0 ≤ spent)
    (hout : MoneyRange out) :
    FitsInt64 (nFees + (spent - out)) ↔ nFees + (spent - out) < 2 ^ 63 := by
  unfold MoneyRange MAX_MONEY COIN at hout
  unfold FitsInt64
  omega

section Blocks

variable {env : ChainEnv} {ctx : NodeContext} {outcome : DbOutcome} {txdb : CTxDB}
  {pindex : CBlockIndex} {pprevs : List CBlockIndex} {fJustCheck : Bool}
  {state state' : ConnectState} {tx : CTransaction}

theorem inputsForFee_eq_some {mapInputs : MapPrevTx}
    (h : inputsForFee env ctx outcome txdb pindex state tx = some mapInputs) :
    ¬ tx.IsCoinBase ∧
      fetchInputs env ctx outcome txdb state.mapQueuedChanges true false tx = .ok mapInputs := by
  simp only [inputsForFee, bind_eq_bind, bind_eq_some_iff, exists_guard_eq_some,
    Option.pure_def, Option.some.injEq] at h
  obtain ⟨-, -, hcoinBase, mapInputs', hfetched, -, -, rfl⟩ := h
  exact ⟨hcoinBase, toOption_eq_some.mp hfetched⟩

theorem noOverflow_connectTxAmounts_iff (hrecords : RecordsInRange env)
    (hpool : PoolChecked ctx.mapTx) (hchecked : tx.checkTransaction = true)
    (hfees : 0 ≤ state.nFees) :
    NoOverflow (connectTxAmounts env ctx outcome txdb pindex pprevs state tx) ↔
      ∀ mapInputs, inputsForFee env ctx outcome txdb pindex state tx = some mapInputs →
        FeeFits state.nFees mapInputs tx := by
  unfold connectTxAmounts
  cases hinputs : inputsForFee env ctx outcome txdb pindex state tx with
  | none => simp
  | some mapInputs =>
    obtain ⟨hrange, hfound⟩ :=
      fetchInputs_range hrecords hpool (inputsForFee_eq_some hinputs).2
    have hout := getValueOut_of_check hchecked
    have hspent := @spentTotal_nonneg mapInputs tx hrange
    have hzero := fitsInt64_fee_iff le_rfl hspent (getValueOut_range hout)
    rw [zero_add] at hzero
    simp only [elim_some, getValueIn_of_isSome hfound, hout, bind_eq_bind,
      bind_some, Option.pure_def, getD_some, noOverflow_append, noOverflow_cons,
      noOverflow_nil, noOverflow_connectInputsAmounts hrange,
      noOverflow_valueInAmounts_iff hrange, hzero,
      fitsInt64_fee_iff hfees hspent (getValueOut_range hout), and_true, Option.some.injEq,
      forall_eq']
    constructor
    · rintro ⟨htotal, -, hfee⟩
      exact ⟨htotal, hfee⟩
    · rintro ⟨htotal, hfee⟩
      exact ⟨htotal, by omega, hfee⟩

/-- A round does not lower the fees. -/
theorem nFees_connectTx (h : connectTx env ctx outcome txdb pindex pprevs fJustCheck state tx =
    some state') : state.nFees ≤ state'.nFees := by
  simp only [connectTx, bind_eq_bind, bind_eq_some_iff, exists_guard_eq_some] at h
  obtain ⟨-, -, h⟩ := h
  split at h
  · cases h
    exact le_rfl
  · next hcoinBase =>
    simp only [bind_eq_some_iff, Option.pure_def, Option.some.injEq] at h
    obtain ⟨mapInputs, -, nSigOps, -, nValueIn, hin, nValueOut, hout, mapQueuedChanges, hconnect,
      rfl⟩ := h
    have hfee := (fee_of_connectInputs hcoinBase hconnect).1
    rw [← getValueIn_eq_spentTotal hin, outTotal, ← tx.getValueOut_eq_some hout] at hfee
    dsimp only
    omega

variable (env ctx outcome txdb pindex pprevs fJustCheck) in
/-- In every round of the loop of `ConnectBlock` that comes to the fee, it fits. -/
def BlockFits (block : CBlock) : Prop :=
  checkBlock env ctx (!fJustCheck) (!fJustCheck) block = true →
    ∀ before tx after state mapInputs, block.vtx = before ++ tx :: after →
      before.foldlM (connectTx env ctx outcome txdb pindex pprevs fJustCheck)
        (connectStart pindex fJustCheck block) = some state →
      inputsForFee env ctx outcome txdb pindex state tx = some mapInputs →
      FeeFits state.nFees mapInputs tx

theorem checkTransaction_of_checkBlock {fCheckPOW fCheckMerkleRoot : Bool} {block : CBlock}
    (h : checkBlock env ctx fCheckPOW fCheckMerkleRoot block = true) :
    ∀ tx ∈ block.vtx, tx.checkTransaction = true := by
  by_contra hnot
  unfold checkBlock at h
  simp [hnot] at h

theorem noOverflow_connectBlockAmounts_iff (hrecords : RecordsInRange env)
    (hpool : PoolChecked ctx.mapTx) (block : CBlock) :
    NoOverflow (connectBlockAmounts env ctx outcome txdb pindex pprevs fJustCheck block) ↔
      BlockFits env ctx outcome txdb pindex pprevs fJustCheck block := by
  unfold connectBlockAmounts BlockFits
  split
  · next hcheck =>
    have hchecked := checkTransaction_of_checkBlock hcheck
    rw [forall_prop_of_true hcheck]
    rw [NoOverflow, forall_mem_runTrace]
    refine forall₃_congr fun before tx after => ?_
    constructor
    · intro h state mapInputs hvtx hrun
      have hfees : 0 ≤ state.nFees := foldlM_invariant (P := fun state _ => 0 ≤ state.nFees)
        (fun _ _ _ _ hold hstep => hold.trans (nFees_connectTx hstep)) le_rfl hrun
      have htx : tx ∈ block.vtx := hvtx ▸ mem_append_right _ mem_cons_self
      have hiff := @noOverflow_connectTxAmounts_iff env ctx outcome txdb pindex pprevs state tx
        hrecords hpool (hchecked tx htx) hfees
      exact hiff.mp (h state hvtx hrun) mapInputs
    · intro h state hvtx hrun
      have hfees : 0 ≤ state.nFees := foldlM_invariant (P := fun state _ => 0 ≤ state.nFees)
        (fun _ _ _ _ hold hstep => hold.trans (nFees_connectTx hstep)) le_rfl hrun
      have htx : tx ∈ block.vtx := hvtx ▸ mem_append_right _ mem_cons_self
      have hiff := @noOverflow_connectTxAmounts_iff env ctx outcome txdb pindex pprevs state tx
        hrecords hpool (hchecked tx htx) hfees
      exact hiff.mpr fun mapInputs => h state mapInputs hvtx hrun
  · next hcheck => simp [hcheck]

end Blocks

/-! ## The memory pool -/

section Accept

variable {env : ChainEnv} {A : PoolContext} {txdb : CTxDB} {tx : CTransaction}
  {fCheckInputs : Bool} {pool : CTxMemPool}

theorem acceptedInputs_eq_some {mapInputs : MapPrevTx}
    (h : acceptedInputs env A txdb tx fCheckInputs pool = some mapInputs) :
    tx.checkTransaction = true ∧
      fetchInputs env { A.ctx with mapTx := pool.mapTx } A.outcome txdb ∅ false false tx =
        .ok mapInputs := by
  simp only [acceptedInputs, bind_eq_bind, bind_eq_some_iff, exists_guard_eq_some,
    Option.pure_def, Option.some.injEq] at h
  obtain ⟨hchecked, -, -, -, -, -, -, -, mapInputs', hfetched, -, rfl⟩ := h
  exact ⟨hchecked, toOption_eq_some.mp hfetched⟩

theorem noOverflow_acceptAmounts_iff (hrecords : RecordsInRange env)
    (hpool : PoolChecked pool.mapTx) :
    NoOverflow (acceptAmounts env A txdb tx fCheckInputs pool) ↔
      ∀ mapInputs, acceptedInputs env A txdb tx fCheckInputs pool = some mapInputs →
        spentTotal mapInputs tx < 2 ^ 63 := by
  unfold acceptAmounts
  cases hinputs : acceptedInputs env A txdb tx fCheckInputs pool with
  | none => simp
  | some mapInputs =>
    obtain ⟨hchecked, hfetched⟩ := acceptedInputs_eq_some hinputs
    obtain ⟨hrange, hfound⟩ := fetchInputs_range hrecords hpool hfetched
    have hout := getValueOut_of_check hchecked
    have hfee := fitsInt64_fee_iff le_rfl (@spentTotal_nonneg mapInputs tx hrange)
      (getValueOut_range hout)
    rw [zero_add] at hfee
    simp only [elim_some, getValueIn_of_isSome hfound, hout, bind_eq_bind,
      bind_some, Option.pure_def, getD_some, noOverflow_append, noOverflow_cons,
      noOverflow_valueInAmounts_iff hrange, hfee, Option.some.injEq, forall_eq']
    have hnonneg := (getValueOut_range hout).1
    constructor
    · exact fun h => h.1
    · intro htotal
      refine ⟨htotal, by omega, ?_⟩
      split
      · exact noOverflow_connectInputsAmounts hrange
      · exact noOverflow_nil

end Accept

/-! ## The miner -/

section Mining

variable {env : ChainEnv} {args : MinerArgs} {o : MinerOutcome} {s : ChainState} {txdb : CTxDB}
  {pindexPrev : CBlockIndex} {entry : TxPriority} {state state' : CollectState}

theorem lookup_poolTable {hash : uint256} (h : (poolTable env o).lookup hash = some tx) :
    tx ∈ o.mapTx := by
  unfold poolTable at h
  generalize o.mapTx = l at h ⊢
  induction l with
  | nil => simp at h
  | cons first rest ih =>
    rw [foldr_cons, Table.lookup_insert_ite] at h
    split at h
    · cases h
      exact mem_cons_self
    · exact mem_cons_of_mem _ (ih h)

variable {hashTx : uint256}

theorem valueToGather_range (hrecords : RecordsInRange env)
    (hpool : ∀ tx ∈ o.mapTx, tx.checkTransaction = true) (txin : CTxIn) (v : ℤ)
    (h : valueToGather env o txdb hashTx txin = some v) : MoneyRange v := by
  unfold valueToGather at h
  split at h
  · next txDep hfind =>
    cases h
    have hvalues := moneyRange_of_check (hpool txDep (mem_of_find?_eq_some hfind))
    cases hget : txDep.vout[txin.prevout.n]? with
    | none => exact moneyRange_zero
    | some txout => exact hvalues txout (mem_of_getElem? hget)
  · obtain ⟨prev, hread, rfl⟩ := map_eq_some_iff.mp h
    simp only [readPrevTx, bind_eq_bind, bind_eq_some_iff, Option.pure_def,
      Option.some.injEq] at hread
    obtain ⟨txindex, -, txPrev, hdisk, txout, hget, rfl⟩ := hread
    exact hrecords txindex.pos txPrev hdisk txout (mem_of_getElem? hget)

variable {totals totals' : InputTotals}

/-- `nTotalIn` grows by the value of the input. -/
theorem addInput_nTotalIn {txin : CTxIn}
    (h : addInput env o s txdb hashTx totals txin = some totals') :
    addValue (valueToGather env o txdb hashTx) totals.nTotalIn txin = some totals'.nTotalIn := by
  revert h
  unfold addInput addValue valueToGather
  dsimp only
  cases o.mapTx.find? fun tx => env.txHash tx = txin.prevout.hash with
  | some txDep =>
    intro h
    cases h
    rfl
  | none =>
    intro h
    obtain ⟨⟨txindex, txout⟩, hread, h⟩ := bind_eq_some_iff.mp h
    cases h
    rw [hread]
    rfl

theorem nTotalIn_eq {vin : List CTxIn}
    (h : vin.foldlM (addInput env o s txdb hashTx) totals = some totals') :
    totals'.nTotalIn = totals.nTotalIn + (valuesOf (valueToGather env o txdb hashTx) vin).sum := by
  obtain ⟨total, hrun, rfl⟩ := foldlM_simulates (R := fun (totals : InputTotals) n =>
    totals.nTotalIn = n) (g := addValue (valueToGather env o txdb hashTx))
    (fun txin _ totals n totals' hn hstep => ⟨_, hn ▸ addInput_nTotalIn hstep, rfl⟩) rfl h
  exact foldlM_addValue hrun

variable (env o s txdb) in
/-- What a transaction of the pool spends fits, up to the first missing input. -/
def GatherFits (tx : CTransaction) : Prop :=
  ¬ tx.IsCoinBase → tx.IsFinal s.nBestHeight (o.nSelectTime (env.txHash tx)) 0 0 = true →
    (valuesOf (valueToGather env o txdb (env.txHash tx)) tx.vin).sum < 2 ^ 63

section

variable (hrecords : RecordsInRange env) (hpool : ∀ tx ∈ o.mapTx, tx.checkTransaction = true)
include hrecords hpool

theorem noOverflow_gatherTxAmounts_iff (tx : CTransaction) :
    NoOverflow (gatherTxAmounts env o s txdb tx) ↔ GatherFits env o s txdb tx := by
  have hvalues : ∀ txin v, valueToGather env o txdb (env.txHash tx) txin = some v → 0 ≤ v :=
    fun txin v hv => (valueToGather_range hrecords hpool txin v hv).1
  unfold gatherTxAmounts GatherFits
  split
  · next hskipped =>
    rcases hskipped with hcoinBase | hfinal
    · simp [hcoinBase]
    · simp [hfinal]
  · next hconsidered =>
    rw [not_or, not_not] at hconsidered
    rw [forall_prop_of_true hconsidered.1, forall_prop_of_true hconsidered.2, noOverflow_append,
      noOverflow_runningSums_iff tx.vin hvalues, and_iff_left_iff_imp]
    cases hrun : tx.vin.foldlM (addInput env o s txdb (env.txHash tx)) ⟨∅, 0, 0⟩ with
    | none => simp
    | some totals =>
      cases hout : tx.getValueOut with
      | none => simp
      | some nValueOut =>
        have hin := nTotalIn_eq hrun
        have hfee := fitsInt64_fee_iff le_rfl (valuesOf_sum_nonneg tx.vin hvalues)
          (getValueOut_range hout)
        rw [zero_add] at hin hfee
        have hnonneg := (getValueOut_range hout).1
        simp only [bind_eq_bind, bind_some, Option.pure_def, getD_some,
          noOverflow_cons, noOverflow_nil, and_true, hin, hfee]
        omega

/-- Every transaction of the pool has its turn. -/
theorem noOverflow_gathered_iff :
    NoOverflow (runTrace (gatherTx env o s txdb) (fun _ tx => gatherTxAmounts env o s txdb tx)
      ([], []) o.mapTx) ↔ ∀ tx ∈ o.mapTx, GatherFits env o s txdb tx := by
  have htotal : ∀ state, ∀ tx ∈ o.mapTx, (gatherTx env o s txdb state tx).isSome := by
    intro state tx htx
    unfold gatherTx
    dsimp only
    split
    · rfl
    · split
      · rfl
      · rw [getValueOut_of_check (hpool tx htx), bind_eq_bind]
        split <;> rfl
  unfold NoOverflow
  simp only [mem_runTrace_of_total htotal]
  constructor
  · intro h tx htx
    exact (noOverflow_gatherTxAmounts_iff hrecords hpool tx).mp fun n hn => h n ⟨tx, htx, hn⟩
  · rintro h n ⟨tx, htx, hn⟩
    exact (noOverflow_gatherTxAmounts_iff hrecords hpool tx).mpr (h tx htx) n hn

end

/-! ### Collecting -/

structure QueuedEntryOk (entry : TxPriority) : Prop where
  notCoinBase : ¬ entry.tx.IsCoinBase
  checked : entry.tx.checkTransaction = true
  valueOut : entry.nValueOut = outTotal entry.tx

variable (env args o s txdb pindexPrev) in
/-- What a transaction spends fits when the loop comes to its fee, and so do the fees if it passes
the other checks. -/
def RoundFits (entry : TxPriority) (state : CollectState) : Prop :=
  ∀ mapInputs, collectedInputs env args o s txdb entry state = some mapInputs →
    spentTotal mapInputs entry.tx < 2 ^ 63 ∧
      (Nonempty (CollectedTx env args o s txdb pindexPrev entry state) →
        state.nFees + (spentTotal mapInputs entry.tx - outTotal entry.tx) < 2 ^ 63)

theorem collectedInputs_eq_some {mapInputs : MapPrevTx}
    (h : collectedInputs env args o s txdb entry state = some mapInputs) :
    state.nBlockSize + entry.nTxSize < args.maxSize ∧
      fetchInputs env ⟨s.nBestHeight, o.nConnectTime, poolTable env o⟩ o.fetch txdb
        state.mapTestPool false true entry.tx = .ok mapInputs := by
  simp only [collectedInputs, bind_eq_bind, guard_bind_eq_some] at h
  exact ⟨not_le.mp h.1, toOption_eq_some.mp h.2.2.2⟩

theorem noOverflow_collectTxAmounts_iff (hrecords : RecordsInRange env)
    (hpool : ∀ tx ∈ o.mapTx, tx.checkTransaction = true) (hentry : QueuedEntryOk entry)
    (state : CollectState) (hfees : 0 ≤ state.nFees) :
    NoOverflow (collectTxAmounts env args o s txdb pindexPrev entry state) ↔
      RoundFits env args o s txdb pindexPrev entry state := by
  unfold collectTxAmounts RoundFits
  cases hinputs : collectedInputs env args o s txdb entry state with
  | none => simp
  | some mapInputs =>
    obtain ⟨hsize, hfetched⟩ := collectedInputs_eq_some hinputs
    obtain ⟨hrange, hfound⟩ := fetchInputs_range hrecords
      (fun hash tx htx => hpool tx (lookup_poolTable htx)) hfetched
    have hout := getValueOut_range (getValueOut_of_check hentry.checked)
    have hspent := @spentTotal_nonneg mapInputs entry.tx hrange
    have hzero := fitsInt64_fee_iff le_rfl hspent hout
    rw [zero_add] at hzero
    have hin := getValueIn_of_isSome hfound
    simp only [elim_some, hin, hentry.valueOut, bind_eq_bind,
      bind_some, Option.pure_def, getD_some, noOverflow_append, noOverflow_cons,
      noOverflow_valueInAmounts_iff hrange, hzero, Option.some.injEq, forall_eq']
    refine and_congr_right fun htotal => ?_
    have hnonneg := hout.1
    rw [and_iff_right (by omega)]
    constructor
    · rintro h ⟨c⟩
      obtain rfl : c.mapInputs = mapInputs := by
        have heq := c.fetched.symm.trans hfetched
        injection heq
      rw [c.p2sh, elim_some, if_neg (not_le.mpr c.sigOps), noOverflow_append, c.connected,
        elim_some, noOverflow_cons] at h
      exact h.2.1.2
    · intro h
      cases hp2sh : getP2SHSigOpCount env mapInputs entry.tx with
      | none => simp
      | some nP2SH =>
        rw [elim_some]
        split
        · exact noOverflow_nil
        · next hsigOps =>
          rw [noOverflow_append]
          refine ⟨noOverflow_connectInputsAmounts hrange, ?_⟩
          cases hconnected : connectInputs env ⟨s.nBestHeight, o.nConnectTime, poolTable env o⟩
              mapInputs state.mapTestPool ⟨1, 1, 1⟩ pindexPrev (s.pprevs pindexPrev) false true true
              entry.tx with
          | none => simp
          | some mapTestPool =>
            have hfee := h ⟨⟨mapInputs, _, nP2SH, mapTestPool, hsize, hfetched, hin, hp2sh,
              not_le.mp hsigOps, hconnected⟩⟩
            rw [elim_some, noOverflow_cons]
            exact ⟨(fitsInt64_fee_iff hfees hspent hout).mpr hfee, noOverflow_nil⟩

/-- A round does not lower the fees. -/
theorem nFees_collectTx (hentry : QueuedEntryOk entry)
    (h : collectTx env args o s txdb pindexPrev entry state = some state') :
    state.nFees ≤ state'.nFees := by
  obtain ⟨fSortedByFee, rfl | ⟨c, rfl⟩⟩ := collectTx_cases h
  · exact le_rfl
  · have hfee := (fee_of_connectInputs hentry.notCoinBase c.connected).1
    rw [← getValueIn_eq_spentTotal c.valueIn, ← hentry.valueOut] at hfee
    unfold CollectedTx.next
    dsimp only
    omega

theorem mem_collectTxsAmounts {x : ℤ} {N : ℕ} {start : CollectState} :
    x ∈ collectTxsAmounts env args o s txdb pindexPrev N start ↔
      ∃ n < N, ∃ state first rest,
        collectTxs env args o s txdb pindexPrev n start = some state ∧
        state.vecPriority = first :: rest ∧
        x ∈ collectTxAmounts env args o s txdb pindexPrev (popHeap state.fSortedByFee first rest).1
          { state with vecPriority := (popHeap state.fSortedByFee first rest).2 } := by
  induction N generalizing start with
  | zero => simp [collectTxsAmounts]
  | succ N ih =>
    rw [collectTxsAmounts]
    cases hqueue : start.vecPriority with
    | nil =>
      rw [iff_false_left not_mem_nil]
      rintro ⟨n, -, state, first, rest, hrun, hstate, -⟩
      have hsame : collectTxs env args o s txdb pindexPrev n start = some start := by
        cases n with
        | zero => rfl
        | succ n => simp [collectTxs, hqueue]
      cases hsame.symm.trans hrun
      rw [hqueue] at hstate
      cases hstate
    | cons first rest =>
      rw [mem_append]
      constructor
      · rintro (hnow | hlater)
        · exact ⟨0, Nat.succ_pos N, start, first, rest, rfl, hqueue, hnow⟩
        · cases hmid : collectTx env args o s txdb pindexPrev
              (popHeap start.fSortedByFee first rest).1
              { start with vecPriority := (popHeap start.fSortedByFee first rest).2 } with
          | none =>
            rw [hmid] at hlater
            cases hlater
          | some mid =>
            rw [hmid] at hlater
            obtain ⟨n, hn, state, first', rest', hrun, hstate, hx⟩ := ih.mp hlater
            refine ⟨n + 1, Nat.succ_lt_succ hn, state, first', rest', ?_, hstate, hx⟩
            simp [collectTxs, hqueue, hmid, hrun]
      · rintro ⟨n, hn, state, first', rest', hrun, hstate, hx⟩
        cases n with
        | zero =>
          cases hrun
          rw [hqueue] at hstate
          cases hstate
          exact Or.inl hx
        | succ n =>
          simp only [collectTxs, hqueue, bind_eq_some_iff] at hrun
          obtain ⟨mid, hmid, hrun⟩ := hrun
          right
          rw [hmid]
          exact ih.mpr ⟨n, Nat.lt_of_succ_lt_succ hn, state, first', rest', hrun, hstate, hx⟩

variable (env args o s txdb pindexPrev) in
/-- In every round of the two loops of `CreateNewBlock` the sums fit. -/
def MinerFits : Prop :=
  (∀ tx ∈ o.mapTx, GatherFits env o s txdb tx) ∧
    ∀ gathered, o.mapTx.foldlM (gatherTx env o s txdb) ([], []) = some gathered →
      ∀ n state first rest,
        collectTxs env args o s txdb pindexPrev n
          { vOrphan := gathered.1
            vecPriority := gathered.2
            fSortedByFee := args.prioritySize = 0 } = some state →
        state.vecPriority = first :: rest →
        RoundFits env args o s txdb pindexPrev (popHeap state.fSortedByFee first rest).1
          { state with vecPriority := (popHeap state.fSortedByFee first rest).2 }

theorem noOverflow_createNewBlockAmounts_iff (hrecords : RecordsInRange env)
    (hpool : ∀ tx ∈ o.mapTx, tx.checkTransaction = true) :
    NoOverflow (createNewBlockAmounts env args o s txdb pindexPrev) ↔
      MinerFits env args o s txdb pindexPrev := by
  rw [createNewBlockAmounts, MinerFits, noOverflow_append, noOverflow_gathered_iff hrecords hpool]
  refine and_congr_right fun _ => ?_
  cases hgathered : o.mapTx.foldlM (gatherTx env o s txdb) ([], []) with
  | none => simp
  | some gathered =>
    simp only [elim_some, Option.some.injEq, forall_eq']
    have hentries : EntriesAll QueuedEntryOk
        { vOrphan := gathered.1
          vecPriority := gathered.2
          fSortedByFee := args.prioritySize = 0 } := by
      have hall := gatherTxs_all (P := QueuedEntryOk) (fun tx htx entry hentry => by
        have hout := hentry.valueOut
        rw [getValueOut_of_check (hpool tx htx)] at hout
        refine ⟨hentry.tx_eq ▸ hentry.notCoinBase, hentry.tx_eq ▸ hpool tx htx, ?_⟩
        rw [hentry.tx_eq]
        exact (Option.some.inj hout).symm) hgathered
      exact ⟨hall.1, hall.2⟩
    have hreached {n : ℕ} {state : CollectState} (hrun : collectTxs env args o s txdb pindexPrev n
        { vOrphan := gathered.1
          vecPriority := gathered.2
          fSortedByFee := args.prioritySize = 0 } = some state) :
        EntriesAll QueuedEntryOk state ∧ 0 ≤ state.nFees := by
      refine collectTxs_invariant
        (I := fun state => EntriesAll QueuedEntryOk state ∧ 0 ≤ state.nFees)
        ?_ ⟨hentries, le_rfl⟩ hrun
      rintro state first rest state' ⟨hall, hfees⟩ hqueue hround
      obtain ⟨hfirst, hrest⟩ := hall.popHeap hqueue
      have hle := nFees_collectTx hfirst hround
      exact ⟨hrest.collectTx hround, hfees.trans hle⟩
    constructor
    · intro h n state first rest hrun hqueue
      obtain ⟨hall, hfees⟩ := hreached hrun
      have hn : n < gathered.2.length + gathered.1.length := by
        by_contra hle
        rw [collectTxs_empties hrun (not_lt.mp hle)] at hqueue
        cases hqueue
      refine (noOverflow_collectTxAmounts_iff hrecords hpool (hall.popHeap hqueue).1
        { state with vecPriority := (popHeap state.fSortedByFee first rest).2 } hfees).mp ?_
      exact fun x hx => h x
        (mem_collectTxsAmounts.mpr ⟨n, hn, state, first, rest, hrun, hqueue, hx⟩)
    · intro h x hx
      obtain ⟨n, hn, state, first, rest, hrun, hqueue, hx⟩ := mem_collectTxsAmounts.mp hx
      obtain ⟨hall, hfees⟩ := hreached hrun
      exact (noOverflow_collectTxAmounts_iff hrecords hpool (hall.popHeap hqueue).1
        { state with vecPriority := (popHeap state.fSortedByFee first rest).2 } hfees).mpr
        (h n state first rest hrun hqueue) x hx

end Mining

/-- Where additions and subtractions of amounts stay in range. -/
theorem noOverflow_iff {env : ChainEnv} (hrecords : RecordsInRange env) :
    (∀ inputs tx, InputsInRange inputs →
      (NoOverflow (valueInAmounts inputs tx) ↔ spentTotal inputs tx < 2 ^ 63)) ∧
    (∀ ctx inputs mapTestPool posThisTx pindexBlock pprevs fBlock fMiner fStrictPayToScriptHash tx,
      InputsInRange inputs → NoOverflow (connectInputsAmounts env ctx inputs mapTestPool posThisTx
        pindexBlock pprevs fBlock fMiner fStrictPayToScriptHash tx)) ∧
    (∀ ctx outcome txdb pindex pprevs fJustCheck block, PoolChecked ctx.mapTx →
      (NoOverflow (connectBlockAmounts env ctx outcome txdb pindex pprevs fJustCheck block) ↔
        BlockFits env ctx outcome txdb pindex pprevs fJustCheck block)) ∧
    (∀ A txdb tx fCheckInputs pool, PoolChecked pool.mapTx →
      (NoOverflow (acceptAmounts env A txdb tx fCheckInputs pool) ↔
        ∀ mapInputs, acceptedInputs env A txdb tx fCheckInputs pool = some mapInputs →
          spentTotal mapInputs tx < 2 ^ 63)) ∧
    ∀ args o s txdb pindexPrev, (∀ tx ∈ o.mapTx, tx.checkTransaction = true) →
      (NoOverflow (createNewBlockAmounts env args o s txdb pindexPrev) ↔
        MinerFits env args o s txdb pindexPrev) := by
  refine ⟨?_, ?_, ?_, ?_, ?_⟩
  · exact fun inputs tx hinputs => noOverflow_valueInAmounts_iff hinputs
  · intro ctx inputs mapTestPool posThisTx pindexBlock pprevs fBlock fMiner fStrict tx hinputs
    exact noOverflow_connectInputsAmounts hinputs
  · exact fun ctx outcome txdb pindex pprevs fJustCheck block hpool =>
      noOverflow_connectBlockAmounts_iff hrecords hpool block
  · exact fun A txdb tx fCheckInputs pool hpool => noOverflow_acceptAmounts_iff hrecords hpool
  · exact fun args o s txdb pindexPrev hpool =>
      noOverflow_createNewBlockAmounts_iff hrecords hpool

namespace ManyInputs

/-- The transaction at an offset of the block file. All coins move in each. -/
def moved (i : ℕ) : CTransaction where
  vin := [⟨⟨i, 0⟩, [], uintMax⟩]
  vout := [⟨MAX_MONEY, []⟩]
  nLockTime := i

/-- Refers to `n` of them. -/
def collecting (n : ℕ) : CTransaction where
  vin := (range n).map fun i => ⟨⟨i + 1, 0⟩, [], uintMax⟩
  vout := [⟨MAX_MONEY, []⟩]
  nLockTime := n

def env : ChainEnv where
  fTestNet := true
  nBaseMaturity := 0
  totalBlocksEstimate := 0
  txHash tx := tx.nLockTime + 1
  blockHash header := header.nNonce + 1
  checkProofOfWork _ := true
  buildMerkleTree _ := 0
  getSigOpCount _ _ := 0
  getP2SHSigOpCount _ _ := 0
  isPayToScriptHash _ := false
  verifyScript _ _ _ _ _ _ := true
  blockFileTx _ nTxPos := some (moved nTxPos)
  blockFileBlock _ _ := none

theorem recordsInRange : RecordsInRange env := by
  intro pos tx hread txout htxout
  unfold ChainEnv.readTxFromDisk at hread
  split at hread
  · cases hread
    obtain rfl := mem_singleton.mp htxout
    unfold MoneyRange MAX_MONEY COIN
    norm_num
  · cases hread

def records (n : ℕ) : List (Σ _ : uint256, CTxIndex) :=
  (range n).map fun i => ⟨i + 1, .ofOutputs ⟨1, 0, i⟩ 1⟩

theorem records_nodup (n : ℕ) : (records n).NodupKeys := by
  rw [records, List.NodupKeys, List.keys, List.map_map]
  exact List.Nodup.map (fun a b hab => Nat.succ_injective hab) nodup_range

def txdb (n : ℕ) : CTxDB := ⟨⟨AList.toFinmap ⟨records n, records_nodup n⟩, ∅, none, none⟩, none⟩

variable {n : ℕ}

theorem lookup_txdb {hash : uint256} {txindex : CTxIndex} :
    (txdb n).view.tx.lookup hash = some txindex ↔
      ∃ i < n, i + 1 = hash ∧ CTxIndex.ofOutputs ⟨1, 0, i⟩ 1 = txindex := by
  have hmem := @AList.mem_lookup_iff _ _ _ hash txindex ⟨records n, records_nodup n⟩
  change (AList.toFinmap ⟨records n, records_nodup n⟩).lookup hash = some txindex ↔ _
  rw [Finmap.lookup_toFinmap, ← mem_def, hmem]
  unfold records
  simp [Sigma.ext_iff]

def context : PoolContext where
  ctx := ⟨0, 0, ∅⟩
  outcome := fun _ => true
  isStandard := fun _ => true
  areInputsStandard := fun _ _ => true
  acceptsFee := fun _ _ => true
  pindexBest := ⟨some 9, none, none, 1, 8, 0, 0, 2, 0, 0, 0, 0⟩
  pprevs := []

theorem size_collecting (hsize : n ≤ 20000) : (collecting n).getSerializeSize ≤ MAX_BLOCK_SIZE := by
  have hcompact : getSizeOfCompactSize n ≤ 3 := by
    unfold getSizeOfCompactSize
    split_ifs <;> omega
  have hvin : ((collecting n).vin.map CTxIn.getSerializeSize).sum = n * 41 := by
    simp [collecting, Function.comp_def, CTxIn.getSerializeSize, scriptSerializeSize,
      getSizeOfCompactSize]
  rw [CTransaction.getSerializeSize, MAX_BLOCK_SIZE, hvin]
  simp only [collecting, CTxOut.getSerializeSize, scriptSerializeSize, map_cons, map_nil,
    sum_cons, sum_nil, length_cons, length_nil]
  unfold getSizeOfCompactSize at hcompact ⊢
  norm_num
  omega

theorem notCoinBase_collecting (hn : 2 ≤ n) : ¬ (collecting n).IsCoinBase := by
  rintro ⟨hlength, -⟩
  simp only [collecting, length_map, length_range] at hlength
  omega

theorem check_collecting {n : ℕ} (hn : 2 ≤ n) (hsize : n ≤ 20000) :
    (collecting n).checkTransaction = true := by
  have hvin : (collecting n).vin.isEmpty = false := by
    simp [collecting]
    omega
  have hnodup : ((collecting n).vin.map CTxIn.prevout).Nodup := by
    rw [collecting, List.map_map]
    refine List.Nodup.map (fun i j hij => ?_) nodup_range
    simpa using hij
  have hvalues : checkOutputValues 0 (collecting n).vout = true := by
    change checkOutputValues 0 [⟨MAX_MONEY, []⟩] = true
    decide
  rw [CTransaction.checkTransaction, hvin, if_neg Bool.false_ne_true, if_neg (by simp [collecting]),
    if_neg (not_lt.mpr (size_collecting hsize)), if_neg (by simp [hvalues]),
    if_neg (by simp [hnodup]), if_neg (notCoinBase_collecting hn)]
  simp [collecting, COutPoint.IsNull, uintMax]

/-- What `FetchInputs` finds for a hash. -/
def prev (hash : uint256) : CTxIndex × CTransaction :=
  (.ofOutputs ⟨1, 0, hash - 1⟩ 1, moved (hash - 1))

theorem fetched {n : ℕ} (hn : 2 ≤ n) : ∃ inputs,
    fetchInputs env { context.ctx with mapTx := CTxMemPool.empty.mapTx } context.outcome (txdb n) ∅
        false false (collecting n) = .ok inputs ∧
      ∀ txin ∈ (collecting n).vin,
        inputs.lookup txin.prevout.hash = some (prev txin.prevout.hash) := by
  apply fetchInputs_of_fetchPrevTx (notCoinBase_collecting hn)
  · intro txin htxin
    obtain ⟨i, hi, rfl⟩ := mem_map.mp htxin
    have hindex : (txdb n).view.tx.lookup (i + 1) = some (.ofOutputs ⟨1, 0, i⟩ 1) :=
      lookup_txdb.mpr ⟨i, mem_range.mp hi, rfl, rfl⟩
    have hread : (txdb n).readTxIndex true (i + 1) = some (.ofOutputs ⟨1, 0, i⟩ 1) := hindex
    unfold fetchPrevTx
    simp [context, CTxMemPool.empty, hread, prev, CTxIndex.ofOutputs, ChainEnv.readTxFromDisk, env,
      openBlockFile, uintMax]
  · intro txin htxin
    obtain ⟨i, -, rfl⟩ := mem_map.mp htxin
    simp [prev, moved, CTxIndex.ofOutputs]

/-- `accept` comes to the fee of the transaction. -/
theorem accepted {n : ℕ} (hn : 2 ≤ n) (hsize : n ≤ 20000) :
    ∃ mapInputs, acceptedInputs env context (txdb n) (collecting n) true .empty = some mapInputs ∧
      spentTotal mapInputs (collecting n) = n * MAX_MONEY := by
  obtain ⟨inputs, hfetched, hinputs⟩ := @fetched n hn
  refine ⟨inputs, ?_, ?_⟩
  · have hunknown : (txdb n).containsTx (n + 1) = false := by
      rw [CTxDB.containsTx, isSome_eq_false_iff, isNone_iff_eq_none, eq_none_iff_forall_ne_some]
      intro txindex hlookup
      obtain ⟨i, hi, heq, -⟩ := lookup_txdb.mp hlookup
      omega
    have hlock : (n : ℤ) ≤ 2 ^ 31 - 1 := by omega
    have hpool : ∀ hash, hash ∉ CTxMemPool.empty.mapTx := fun hash => Finmap.notMem_empty
    have hspends : ∀ prevout, prevout ∉ CTxMemPool.empty.mapNextTx :=
      fun prevout => Finmap.notMem_empty
    unfold acceptedInputs
    simp only [bind_eq_bind, bind_eq_some_iff, exists_guard_eq_some, Option.pure_def]
    refine ⟨check_collecting hn hsize, notCoinBase_collecting hn, not_lt.mpr hlock, ?_, hpool _, ?_,
      ?_, trivial, inputs, toOption_eq_some.mpr hfetched, ?_, rfl⟩
    · simp [env]
    · rintro ⟨-, hcontains⟩
      exact Bool.false_ne_true (hunknown.symm.trans hcontains)
    · rintro ⟨txin, -, hspent⟩
      exact hspends txin.prevout hspent
    · simp [context]
  · rw [spentTotal, if_neg (notCoinBase_collecting hn), valuesOf_eq_map (v := fun _ => MAX_MONEY)]
    · simp [collecting, Function.comp_def]
    · intro txin htxin
      have hprev := hinputs txin htxin
      obtain ⟨i, -, rfl⟩ := mem_map.mp htxin
      simp [valueOfInput, getOutputFor, hprev, prev, moved]

end ManyInputs

open ManyInputs

theorem poolChecked_empty : PoolChecked CTxMemPool.empty.mapTx := by
  intro hash tx hlookup
  cases hlookup

/-- With one input less there is no overflow. -/
theorem noOverflow_fewerInputs :
    NoOverflow (acceptAmounts env context (txdb 9223)
      (collecting 9223) true .empty) := by
  obtain ⟨mapInputs, hinputs, htotal⟩ :=
    @accepted 9223 (by norm_num) (by norm_num)
  refine ((noOverflow_iff recordsInRange).2.2.2.1 _ _ _ _ _ poolChecked_empty).mpr ?_
  intro mapInputs' hinputs'
  cases hinputs.symm.trans hinputs'
  rw [htotal]
  unfold MAX_MONEY COIN
  norm_num

/-- A transaction that refers to 9224 outputs with all coins: `GetValueIn` overflows in `accept`. -/
theorem overflow_manyInputs :
    RecordsInRange env ∧ (collecting 9224).checkTransaction = true ∧
      ¬ NoOverflow (acceptAmounts env context (txdb 9224)
        (collecting 9224) true .empty) := by
  have hchecked := @check_collecting 9224 (by norm_num) (by norm_num)
  obtain ⟨mapInputs, hinputs, htotal⟩ :=
    @accepted 9224 (by norm_num) (by norm_num)
  refine ⟨recordsInRange, hchecked, ?_⟩
  rw [noOverflow_acceptAmounts_iff recordsInRange poolChecked_empty]
  intro hfits
  have hlimit := hfits mapInputs hinputs
  rw [htotal] at hlimit
  unfold MAX_MONEY COIN at hlimit
  norm_num at hlimit

end Phoenixcoin.Analysis
