import Phoenixcoin.Model.IndexEffect
import Phoenixcoin.Program.ConnectBlock

/-!
# The effect of connecting a transaction

`ConnectBlock` works on the entries it has queued and, behind them, on those in the
database. On this combined index every transaction it connects has the effect of
`Model.TxEffect.apply`, and `DisconnectInputs` has that of `Model.TxEffect.undo`.
-/

set_option autoImplicit false

namespace Phoenixcoin.Analysis

open Lib Program Model Option

variable {env : ChainEnv} {ctx : NodeContext} {outcome : DbOutcome}

/-- The index that `ConnectBlock` sees: its queued changes over the database. -/
def queuedIndex (queued : TxIndexTable) (txdb : CTxDB) : TxIndexTable := queued ∪ txdb.view.tx

/-- The effect of a transaction that is stored at `pos`. -/
def txEffect (env : ChainEnv) (tx : CTransaction) (pos : CDiskTxPos) : TxEffect where
  id := env.txHash tx
  pos := pos
  spends := if tx.IsCoinBase then [] else tx.vin.map CTxIn.prevout
  nOutputs := tx.vout.length

/-! ## Fetching inputs -/

/-- What `FetchInputs` knows about a previous transaction while a block is connected. -/
def Fetched (env : ChainEnv) (index : TxIndexTable) (hash : uint256)
    (prev : CTxIndex × CTransaction) : Prop :=
  index.lookup hash = some prev.1 ∧
    (prev.1.pos ≠ ⟨1, 1, 1⟩ → env.readTxFromDisk prev.1.pos = some prev.2)

variable {queued : TxIndexTable} {txdb : CTxDB} {inputs : MapPrevTx} {tx : CTransaction}
  {pos : CDiskTxPos} {pindex : CBlockIndex} {pprevs : List CBlockIndex} {state : ConnectState}

theorem fetchPrevTx_ok {hashTx hash : uint256} {prev : CTxIndex × CTransaction}
    (h : fetchPrevTx env ctx outcome txdb queued true false hashTx hash = .ok prev) :
    Fetched env (queuedIndex queued txdb) hash prev := by
  unfold fetchPrevTx at h
  rw [Fetched, queuedIndex, Table.lookup_union_or]
  cases hq : queued.lookup hash with
  | some txindex =>
    simp only [hq, Bool.or_false, if_true] at h
    split at h
    · next txPrev hread =>
      cases h
      refine ⟨rfl, fun _ => ?_⟩
      split at hread
      · exact hread
      · contradiction
    · contradiction
  | none =>
    simp only [hq, Bool.or_false, if_true] at h
    split at h
    · next txindex hdb =>
      have hlookup : txdb.view.tx.lookup hash = some txindex := by
        unfold CTxDB.readTxIndex at hdb
        split at hdb
        · exact hdb
        · contradiction
      split at h
      · next hpos =>
        split at h
        · cases h
          exact ⟨hlookup, fun hne => absurd hpos hne⟩
        · contradiction
      · split at h
        · next txPrev hread =>
          cases h
          refine ⟨hlookup, fun _ => ?_⟩
          split at hread
          · exact hread
          · contradiction
        · contradiction
    · contradiction

theorem fetchInput_ok {hashTx : uint256} {txin : CTxIn} {inputs' : MapPrevTx}
    (hinputs : ∀ hash prev, inputs.lookup hash = some prev →
      Fetched env (queuedIndex queued txdb) hash prev)
    (h : fetchInput env ctx outcome txdb queued true false hashTx inputs txin = .ok inputs') :
    ∀ hash prev, inputs'.lookup hash = some prev →
      Fetched env (queuedIndex queued txdb) hash prev := by
  unfold fetchInput at h
  split at h
  · cases h
    exact hinputs
  · cases hprev : fetchPrevTx env ctx outcome txdb queued true false hashTx txin.prevout.hash with
    | error e =>
      rw [hprev] at h
      cases h
    | ok prev =>
      rw [hprev] at h
      cases h
      intro hash prev' hlookup
      rw [Table.lookup_insert_ite] at hlookup
      split at hlookup
      · next heq =>
        cases hlookup
        rw [heq]
        exact fetchPrevTx_ok hprev
      · exact hinputs hash prev' hlookup

theorem fetchInputs_ok (h : fetchInputs env ctx outcome txdb queued true false tx = .ok inputs) :
    ∀ hash prev, inputs.lookup hash = some prev →
      Fetched env (queuedIndex queued txdb) hash prev := by
  have hempty : ∀ hash prev, (∅ : MapPrevTx).lookup hash = some prev →
      Fetched env (queuedIndex queued txdb) hash prev := by
    intro hash prev hlookup
    contradiction
  unfold fetchInputs at h
  split at h
  · cases h
    exact hempty
  · cases hloop : tx.vin.foldlM
        (fetchInput env ctx outcome txdb queued true false (env.txHash tx)) ∅ with
    | error e =>
      simp only [hloop] at h
      cases h
    | ok inputs' =>
      simp only [hloop] at h
      have hinv := foldlM_invariant_ok (fun txin _ s s' => fetchInput_ok) hempty hloop
      change (if _ then _ else _) = _ at h
      split at h
      · cases h
        exact hinv
      · cases h

/-! ## Spending inputs -/

/-- The previous transactions that `ConnectInputs` holds agree with the combined index. -/
def InputsAgree (inputs : MapPrevTx) (index : TxIndexTable) : Prop :=
  ∀ hash prev, inputs.lookup hash = some prev → index.lookup hash = some prev.1

/-- One round of the second loop of `ConnectInputs` spends the outpoint in the index. -/
theorem spendInput_effect {strict : Bool} {state state' : MapPrevTx × TxIndexTable}
    {input : CTxIn × ℕ} (hagree : InputsAgree state.1 (queuedIndex state.2 txdb))
    (h : spendInput env ctx tx pos true false strict state input = some state') :
    spendOutput pos (queuedIndex state.2 txdb) input.1.prevout =
        some (queuedIndex state'.2 txdb) ∧
      InputsAgree state'.1 (queuedIndex state'.2 txdb) := by
  obtain ⟨inputs, queued⟩ := state
  obtain ⟨txin, nIn⟩ := input
  simp only [spendInput, bind_eq_bind, bind_eq_some_iff, exists_guard_eq_some,
    Option.pure_def, Option.some.injEq, Bool.or_false, if_true] at h
  obtain ⟨⟨txindex, txPrev⟩, hprev, slot, hslot, hnull, -, rfl⟩ := h
  have hindex : (queuedIndex queued txdb).lookup txin.prevout.hash = some txindex :=
    hagree _ _ hprev
  have hqueued : queuedIndex (queued.insert txin.prevout.hash
        { txindex with vSpent := txindex.vSpent.set txin.prevout.n pos }) txdb =
      setSpent txin.prevout pos (queuedIndex queued txdb) := by
    rw [setSpent_of_lookup hindex]
    exact Finmap.insert_union.symm
  refine ⟨?_, ?_⟩
  · rw [spendOutput_eq_some]
    refine ⟨⟨slot, ?_, hnull⟩, hqueued.symm⟩
    rw [spentSlot, hindex, bind_some, hslot]
  · intro hash prev hlookup
    rw [hqueued, lookup_setSpent]
    rw [Table.lookup_insert_ite] at hlookup
    by_cases hk : hash = txin.prevout.hash
    · rw [if_pos hk] at hlookup ⊢
      cases hlookup
      rw [hk, hindex, map_some]
    · rw [if_neg hk] at hlookup ⊢
      exact hagree hash prev hlookup

/-- The second loop of `ConnectInputs` spends all the inputs. -/
theorem connectInputs_effect {queued' : TxIndexTable} {strict : Bool} (hcoinBase : ¬ tx.IsCoinBase)
    (hagree : InputsAgree inputs (queuedIndex queued txdb))
    (h : connectInputs env ctx inputs queued pos pindex pprevs true false strict tx = some queued')
    :
    (tx.vin.map CTxIn.prevout).foldlM (spendOutput pos) (queuedIndex queued txdb) =
      some (queuedIndex queued' txdb) := by
  rw [connectInputs, if_neg hcoinBase] at h
  simp only [bind_eq_bind, bind_eq_some_iff, exists_guard_eq_some,
    Option.pure_def, Option.some.injEq] at h
  obtain ⟨nValueIn, -, ⟨inputs', queued''⟩, hloop, nValueOut, -, -, -, rfl⟩ := h
  have hstep : ∀ input ∈ tx.vin.zipIdx, ∀ (s : MapPrevTx × TxIndexTable) index s',
      index = queuedIndex s.2 txdb ∧ InputsAgree s.1 index →
      spendInput env ctx tx pos true false strict s input = some s' →
      ∃ index', spendOutput pos index input.1.prevout = some index' ∧
        (index' = queuedIndex s'.2 txdb ∧ InputsAgree s'.1 index') := by
    rintro input - s index s' ⟨rfl, hR⟩ hs
    obtain ⟨hs, hR'⟩ := spendInput_effect hR hs
    exact ⟨_, hs, rfl, hR'⟩
  obtain ⟨index', hspend, heq, -⟩ := foldlM_simulates hstep ⟨rfl, hagree⟩ hloop
  have hmap : tx.vin.map CTxIn.prevout = (tx.vin.zipIdx.map Prod.fst).map CTxIn.prevout := by
    rw [List.zipIdx_map_fst]
  rw [hmap, List.map_map, List.foldlM_map]
  exact hspend.trans (congrArg some heq)

/-! ## Connecting a transaction -/

/-- What a connected transaction that is not a coinbase has gone through. -/
structure ConnectedInputs (env : ChainEnv) (ctx : NodeContext) (outcome : DbOutcome)
    (txdb : CTxDB) (pindex : CBlockIndex) (pprevs : List CBlockIndex) (state : ConnectState)
    (tx : CTransaction) (pos : CDiskTxPos) where
  inputs : MapPrevTx
  nValueIn : ℤ
  nValueOut : ℤ
  queued : TxIndexTable
  strict : Bool
  hfetch : fetchInputs env ctx outcome txdb state.mapQueuedChanges true false tx = .ok inputs
  hvalueIn : getValueIn inputs tx = some nValueIn
  hvalueOut : tx.getValueOut = some nValueOut
  hconnect : connectInputs env ctx inputs state.mapQueuedChanges pos pindex pprevs true false
    strict tx = some queued

/-- The two ways in which `ConnectBlock` gets past a transaction. -/
theorem connectTx_cases {state' : ConnectState}
    (h : connectTx env ctx outcome txdb pindex pprevs false state tx = some state') :
    state'.nTxPos = state.nTxPos + tx.getSerializeSize ∧
      ((tx.IsCoinBase ∧ state'.nFees = state.nFees ∧
          state'.mapQueuedChanges = state.mapQueuedChanges.insert (env.txHash tx)
            (.ofOutputs ⟨pindex.nFile, pindex.nBlockPos, state.nTxPos⟩ tx.vout.length)) ∨
        (¬ tx.IsCoinBase ∧ ∃ c : ConnectedInputs env ctx outcome txdb pindex pprevs state tx
            ⟨pindex.nFile, pindex.nBlockPos, state.nTxPos⟩,
          state'.nFees = state.nFees + (c.nValueIn - c.nValueOut) ∧
          state'.mapQueuedChanges = c.queued.insert (env.txHash tx)
            (.ofOutputs ⟨pindex.nFile, pindex.nBlockPos, state.nTxPos⟩ tx.vout.length))) := by
  simp only [connectTx, bind_eq_bind, bind_eq_some_iff, exists_guard_eq_some] at h
  obtain ⟨-, -, h⟩ := h
  split at h
  · next hcoinBase =>
    cases h
    exact ⟨rfl, Or.inl ⟨hcoinBase, rfl, rfl⟩⟩
  · next hcoinBase =>
    simp only [bind_eq_some_iff, Option.pure_def] at h
    obtain ⟨inputs, hfetch, nSigOps, -, nValueIn, hvalueIn, nValueOut, hvalueOut, queued,
      hconnect, h⟩ := h
    cases h
    have hok : fetchInputs env ctx outcome txdb state.mapQueuedChanges true false tx =
        .ok inputs := by
      cases hf : fetchInputs env ctx outcome txdb state.mapQueuedChanges true false tx with
      | error e =>
        rw [hf] at hfetch
        contradiction
      | ok inputs' =>
        rw [hf] at hfetch
        cases hfetch
        rfl
    exact ⟨rfl, Or.inr ⟨hcoinBase,
      ⟨inputs, nValueIn, nValueOut, queued, _, hok, hvalueIn, hvalueOut, hconnect⟩, rfl, rfl⟩⟩

theorem ConnectedInputs.spends (hcoinBase : ¬ tx.IsCoinBase)
    (c : ConnectedInputs env ctx outcome txdb pindex pprevs state tx pos) :
    (tx.vin.map CTxIn.prevout).foldlM (spendOutput pos)
        (queuedIndex state.mapQueuedChanges txdb) = some (queuedIndex c.queued txdb) :=
  connectInputs_effect hcoinBase
    (fun hash prev hlookup => (fetchInputs_ok c.hfetch hash prev hlookup).1) c.hconnect

/-- A connected transaction has its effect on the combined index. -/
theorem connectTx_effect {state' : ConnectState}
    (h : connectTx env ctx outcome txdb pindex pprevs false state tx = some state') :
    (txEffect env tx ⟨pindex.nFile, pindex.nBlockPos, state.nTxPos⟩).apply
        (queuedIndex state.mapQueuedChanges txdb) =
      some (queuedIndex state'.mapQueuedChanges txdb) := by
  rw [TxEffect.apply_eq_some]
  obtain ⟨-, ⟨hcoinBase, -, hqueued⟩ | ⟨hcoinBase, c, -, hqueued⟩⟩ := connectTx_cases h
  · refine ⟨queuedIndex state.mapQueuedChanges txdb, ?_, ?_⟩
    · simp only [txEffect, if_pos hcoinBase]
      rfl
    · rw [hqueued]
      exact Finmap.insert_union.symm
  · refine ⟨queuedIndex c.queued txdb, ?_, ?_⟩
    · simp only [txEffect, if_neg hcoinBase]
      exact c.spends hcoinBase
    · rw [hqueued]
      exact Finmap.insert_union.symm

end Phoenixcoin.Analysis
