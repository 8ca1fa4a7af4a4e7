import Phoenixcoin.Analysis.ConnectEffect

/-!
# Disconnecting undoes connecting

`DisconnectBlock` on the database that `ConnectBlock` leaves gives back the transaction index
from before, for a block whose transactions had no entry there.
-/

set_option autoImplicit false

namespace Phoenixcoin.Analysis

open Lib Program Model List Option

variable {env : ChainEnv} {ctx : NodeContext} {outcome : DbOutcome}

/-- An outcome in which no operation fails. -/
def NoFailure (outcome : DbOutcome) : Prop := ∀ op, outcome op = true

/-! ## Blocks -/

/-- What `CheckBlock` guarantees about the transactions of a block. -/
theorem checkBlock_spec {fCheckPOW fCheckMerkleRoot : Bool} {block : CBlock}
    (h : checkBlock env ctx fCheckPOW fCheckMerkleRoot block = true) :
    (∀ tx ∈ block.vtx, tx.checkTransaction = true) ∧ (block.vtx.map env.txHash).Nodup ∧
      (∀ tx ∈ block.vtx.take 1, tx.IsCoinBase) ∧ ∀ tx ∈ block.vtx.drop 1, ¬ tx.IsCoinBase := by
  unfold checkBlock at h
  split_ifs at h with h1 h2 h3 h4 h5 h6 h7 h8 h9
  refine ⟨List.all_eq_true.mp h6, h7, fun tx htx => ?_, fun tx htx hcoinBase => ?_⟩
  · exact of_decide_eq_true (List.all_eq_true.mp h4 tx htx)
  · exact h5 (List.any_eq_true.mpr ⟨tx, htx, decide_eq_true hcoinBase⟩)

variable {pprevs : List CBlockIndex} {tx : CTransaction}

theorem view_tx_writePrevBlockIndex {hashNext : uint256} {txdb txdb' : CTxDB}
    (h : writePrevBlockIndex env outcome pprevs hashNext txdb = some txdb') :
    txdb'.view.tx = txdb.view.tx := by
  unfold writePrevBlockIndex at h
  split at h
  · cases h
    rfl
  · unfold CTxDB.writeBlockIndex at h
    split at h
    · cases h
      rw [CTxDB.view_update]
    · contradiction

/-- A block that `ConnectBlock` accepts passes `CheckBlock`, its coinbase claims no more than
subsidy and fees, and the index afterwards is the one its last transaction left. -/
theorem connectBlock_cases {txdb txdb' : CTxDB} {pindex : CBlockIndex} {block : CBlock}
    (h : connectBlock env ctx outcome txdb pindex pprevs false block = some txdb') :
    checkBlock env ctx true true block = true ∧ ∃ state coinBase nValueOut,
      block.vtx.foldlM (connectTx env ctx outcome txdb pindex pprevs false)
          ⟨∅, 0, 0, firstTxPos pindex block⟩ = some state ∧
        block.vtx.head? = some coinBase ∧ coinBase.getValueOut = some nValueOut ∧
        nValueOut ≤ getProofOfWorkReward env.fTestNet pindex.nHeight state.nFees ∧
        txdb'.view.tx = queuedIndex state.mapQueuedChanges txdb := by
  simp only [connectBlock, bind_eq_bind, bind_eq_some_iff, exists_guard_eq_some,
    Bool.not_false, Bool.false_eq_true, if_false, not_lt] at h
  obtain ⟨hcheck, state, hloop, coinBase, hhead, nValueOut, hvalueOut, hreward, txdb1, hwrite,
    hprev⟩ := h
  refine ⟨hcheck, state, coinBase, nValueOut, hloop, hhead, hvalueOut, hreward, ?_⟩
  simp only [writeQueuedChanges, bind_eq_bind, guard_bind_eq_some, Option.pure_def,
    Option.some.injEq] at hwrite
  obtain ⟨-, rfl⟩ := hwrite
  rw [view_tx_writePrevBlockIndex hprev, CTxDB.view_update]
  rfl

/-! ## Taking back one transaction -/

theorem disconnectInput_effect (hok : NoFailure outcome) {txdb : CTxDB} {txin : CTxIn}
    {index' : TxIndexTable} (h : unspendOutput txdb.view.tx txin.prevout = some index') :
    ∃ txdb', disconnectInput env outcome tx txdb txin = some txdb' ∧ index' = txdb'.view.tx := by
  obtain ⟨hslot, rfl⟩ := unspendOutput_eq_some.mp h
  unfold spentSlot at hslot
  cases he : txdb.view.tx.lookup txin.prevout.hash with
  | none =>
    rw [he] at hslot
    contradiction
  | some txindex =>
    rw [he, bind_some] at hslot
    have hlt : txin.prevout.n < txindex.vSpent.length := by
      by_contra hge
      rw [getElem?_eq_none (not_lt.mp hge)] at hslot
      contradiction
    let cleared : CTxIndex := ⟨txindex.pos, txindex.vSpent.set txin.prevout.n CDiskTxPos.null⟩
    refine ⟨txdb.update fun r => { r with tx := r.tx.insert txin.prevout.hash cleared }, ?_, ?_⟩
    · simp [disconnectInput, CTxDB.readTxIndex, CTxDB.updateTxIndex, hok _, he, hlt, cleared]
    · rw [CTxDB.view_update, setSpent_of_lookup he]

/-- `DisconnectInputs` undoes the effect of its transaction when no operation fails. -/
theorem disconnectInputs_effect (hok : NoFailure outcome) {pos : CDiskTxPos} {txdb : CTxDB}
    {index' : TxIndexTable} (h : (txEffect env tx pos).undo txdb.view.tx = some index') :
    ∃ txdb', disconnectInputs env outcome txdb tx = some txdb' ∧ index' = txdb'.view.tx := by
  obtain ⟨mid, hmid, rfl⟩ := TxEffect.undo_eq_some.mp h
  have hinputs : ∃ txdb1, (if tx.IsCoinBase then some txdb
      else tx.vin.foldlM (disconnectInput env outcome tx) txdb) = some txdb1 ∧
      mid = txdb1.view.tx := by
    by_cases hcoinBase : tx.IsCoinBase
    · simp only [txEffect, if_pos hcoinBase] at hmid
      cases hmid
      exact ⟨txdb, if_pos hcoinBase, rfl⟩
    · simp only [txEffect, if_neg hcoinBase, foldlM_map] at hmid
      rw [if_neg hcoinBase]
      have hstep : ∀ txin ∈ tx.vin, ∀ index (txdb : CTxDB) index', index = txdb.view.tx →
          unspendOutput index txin.prevout = some index' →
          ∃ txdb', disconnectInput env outcome tx txdb txin = some txdb' ∧
            index' = txdb'.view.tx := by
        rintro txin - index txdb index' rfl hunspend
        exact disconnectInput_effect hok hunspend
      exact foldlM_simulates hstep rfl hmid
  obtain ⟨txdb1, htxdb1, rfl⟩ := hinputs
  refine ⟨txdb1.update fun r => { r with tx := r.tx.erase (env.txHash tx) }, ?_, ?_⟩
  · by_cases hcoinBase : tx.IsCoinBase
    · rw [if_pos hcoinBase] at htxdb1
      cases htxdb1
      simp [disconnectInputs, hcoinBase, CTxDB.eraseTxIndex, hok _]
    · rw [if_neg hcoinBase] at htxdb1
      simp [disconnectInputs, hcoinBase, htxdb1, CTxDB.eraseTxIndex, hok _]
  · rw [CTxDB.view_update]
    rfl

/-! ## Taking back a block -/

/-- What holds while the transactions `txs` of a block are still to be connected. -/
structure ToConnect (env : ChainEnv) (txdb : CTxDB) (state : ConnectState)
    (txs : List CTransaction) : Prop where
  nulls : NullsCanonical (queuedIndex state.mapQueuedChanges txdb)
  checked : ∀ tx ∈ txs, tx.checkTransaction = true
  nodup : (txs.map env.txHash).Nodup
  new : ∀ tx ∈ txs, (queuedIndex state.mapQueuedChanges txdb).lookup (env.txHash tx) = none

theorem txEffect_nodup {pos : CDiskTxPos} (h : tx.checkTransaction = true) :
    (txEffect env tx pos).spends.Nodup := by
  unfold txEffect
  split
  · exact nodup_nil
  · exact CTransaction.nodup_of_checkTransaction h

/-- Connecting one transaction keeps `ToConnect`, and `DisconnectInputs` takes it back. -/
theorem connectTx_undo {outcome' : DbOutcome} (hok : NoFailure outcome') {txdb : CTxDB}
    {pindex : CBlockIndex} (hfile : pindex.nFile ≠ uintMax) (tx : CTransaction)
    (txs : List CTransaction) (state state' : ConnectState)
    (hto : ToConnect env txdb state (tx :: txs))
    (h : connectTx env ctx outcome txdb pindex pprevs false state tx = some state') :
    ToConnect env txdb state' txs ∧
      ∀ txdb' : CTxDB, queuedIndex state'.mapQueuedChanges txdb = txdb'.view.tx →
        ∃ txdb1, disconnectInputs env outcome' txdb' tx = some txdb1 ∧
          queuedIndex state.mapQueuedChanges txdb = txdb1.view.tx := by
  have happly := connectTx_effect h
  have hnodup : (txEffect env tx ⟨pindex.nFile, pindex.nBlockPos, state.nTxPos⟩).spends.Nodup :=
    txEffect_nodup (hto.checked tx mem_cons_self)
  have hids := nodup_cons.mp (map_cons ▸ hto.nodup)
  refine ⟨⟨?_, ?_, hids.2, ?_⟩, ?_⟩
  · exact TxEffect.nullsCanonical_apply hnodup hfile hto.nulls happly
  · exact fun t ht => hto.checked t (mem_cons_of_mem _ ht)
  · intro t ht
    have hne : env.txHash t ≠ env.txHash tx := fun he =>
      hids.1 (he ▸ List.mem_map_of_mem ht)
    exact TxEffect.lookup_apply_none hnodup happly hne (hto.new t (mem_cons_of_mem _ ht))
  · intro txdb' hview
    have hundo := TxEffect.undo_apply hnodup hto.nulls (hto.new tx mem_cons_self) happly
    rw [hview] at hundo
    exact disconnectInputs_effect hok hundo

/-- `DisconnectBlock` without failures gives back the transaction index that the block was
connected to. The hypotheses on null positions hold for every index the node builds: a null
slot is always the position `SetNull` writes, and no block file has the null number. -/
theorem disconnectBlock_connectBlock {outcome' : DbOutcome} (hok : NoFailure outcome')
    {txdb txdb' : CTxDB} {pindex : CBlockIndex} {pprevs pprevs' : List CBlockIndex}
    {block : CBlock} (hfile : pindex.nFile ≠ uintMax) (hnull : NullsCanonical txdb.view.tx)
    (hnew : ∀ tx ∈ block.vtx, env.txHash tx ∉ txdb.view.tx)
    (h : connectBlock env ctx outcome txdb pindex pprevs false block = some txdb') :
    ∃ txdb'', disconnectBlock env outcome' txdb' pprevs' block = some txdb'' ∧
      txdb''.view.tx = txdb.view.tx := by
  obtain ⟨hcheck, state, coinBase, nValueOut, hloop, -, -, -, hview⟩ := connectBlock_cases h
  obtain ⟨hchecked, hnodup, -, -⟩ := checkBlock_spec hcheck
  have hstart : queuedIndex ∅ txdb = txdb.view.tx := Finmap.empty_union
  have hto : ToConnect env txdb ⟨∅, 0, 0, firstTxPos pindex block⟩ block.vtx := by
    refine ⟨?_, hchecked, hnodup, fun tx htx => ?_⟩
    · exact hstart ▸ hnull
    · exact hstart ▸ Finmap.lookup_eq_none.mpr (hnew tx htx)
  obtain ⟨txdb1, hrun, hview1⟩ :=
    foldlM_reverse_undo (connectTx_undo hok hfile) hto hloop hview.symm
  have hprev : ∃ txdb'', writePrevBlockIndex env outcome' pprevs' 0 txdb1 = some txdb'' := by
    unfold writePrevBlockIndex
    split
    · exact ⟨_, rfl⟩
    · exact ⟨_, by rw [hok]; rfl⟩
  obtain ⟨txdb'', hprev⟩ := hprev
  refine ⟨txdb'', ?_, ?_⟩
  · rw [disconnectBlock, hrun]
    exact hprev
  · rw [view_tx_writePrevBlockIndex hprev, ← hview1, hstart]

/-! ## A block that spends its own output -/

namespace SampleBlock

def coinBase : CTransaction where
  vin := [⟨⟨0, uintMax⟩, [0, 0], uintMax⟩]
  vout := [⟨50 * COIN, []⟩]
  nLockTime := 6

/-- Spends the coinbase of the same block. -/
def spender : CTransaction where
  vin := [⟨⟨7, 0⟩, [], uintMax⟩]
  vout := [⟨20 * COIN, []⟩, ⟨30 * COIN, []⟩]
  nLockTime := 7

def block : CBlock :=
  ⟨⟨2, 0, 0, 0, 0, 0⟩, [coinBase, spender]⟩

def pindex : CBlockIndex :=
  ⟨some 9, none, none, 1, 8, 0, 0, 2, 0, 0, 0, 0⟩

def sampleEnv : ChainEnv where
  fTestNet := false
  nBaseMaturity := 0
  totalBlocksEstimate := 0
  txHash tx := tx.nLockTime + 1
  blockHash header := header.nNonce + 1
  checkProofOfWork _ := true
  buildMerkleTree _ := 0
  getSigOpCount _ _ := 0
  getP2SHSigOpCount _ _ := 0
  isPayToScriptHash _ := false
  verifyScript _ _ _ _ _ _ := true
  blockFileTx _ nTxPos := if nTxPos = firstTxPos pindex block then some coinBase else some spender
  blockFileBlock _ _ := some block

def sampleCtx : NodeContext := ⟨0, 0, ∅⟩

def txdb : CTxDB := ⟨⟨∅, ∅, none, none⟩, none⟩

theorem connectBlock_isSome :
    (connectBlock sampleEnv sampleCtx (fun _ => true) txdb pindex [] false
      block).isSome = true := by
  decide

end SampleBlock

open SampleBlock

theorem disconnectBlock_connectBlock_example :
    ∃ txdb' txdb'', connectBlock sampleEnv sampleCtx (fun _ => true)
        txdb pindex [] false block =
          some txdb' ∧
      disconnectBlock sampleEnv (fun _ => true) txdb' [] block =
        some txdb'' ∧ txdb''.view.tx = ∅ := by
  obtain ⟨txdb', h⟩ := isSome_iff_exists.mp connectBlock_isSome
  obtain ⟨txdb'', hrun, hview⟩ := disconnectBlock_connectBlock (fun _ => rfl) (by decide)
    (fun o slot hslot _ => by cases hslot) (fun tx _ => Finmap.notMem_empty) h
  exact ⟨txdb', txdb'', h, hrun, hview⟩

end Phoenixcoin.Analysis
