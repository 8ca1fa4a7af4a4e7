import Phoenixcoin.Analysis.DisconnectConnect
import Phoenixcoin.Model.Value

/-!
# No inflation and no double spend

Over any chain of connected blocks the value of the unspent outputs is at most the sum of the
block rewards, and no output is spent twice. An output is one made by one transaction of the
chain; when a later transaction has the same id, the outputs it makes are new ones.
-/

set_option autoImplicit false

namespace Phoenixcoin.Analysis

open Lib Program Model List Option

/-! ## Chains of connected blocks -/

/-- A block to connect, with everything that may differ from one block to the next. -/
structure ConnectStep where
  ctx : NodeContext
  outcome : DbOutcome
  pindex : CBlockIndex
  pprevs : List CBlockIndex
  block : CBlock

def connectChain (env : ChainEnv) (txdb : CTxDB) (steps : List ConnectStep) : Option CTxDB :=
  steps.foldlM (fun txdb s =>
    connectBlock env s.ctx s.outcome txdb s.pindex s.pprevs false s.block) txdb

/-- The transactions are on disk at the positions that follow `nTxPos`. -/
def StoredFrom (env : ChainEnv) (pindex : CBlockIndex) : ℕ → List CTransaction → Prop
  | _, [] => True
  | nTxPos, tx :: txs =>
    env.readTxFromDisk ⟨pindex.nFile, pindex.nBlockPos, nTxPos⟩ = some tx ∧
      StoredFrom env pindex (nTxPos + tx.getSerializeSize) txs

/-- The block was written to disk where its index entry says, as `WriteToDisk` does before
`AddToBlockIndex` is called. -/
def BlockStored (env : ChainEnv) (pindex : CBlockIndex) (block : CBlock) : Prop :=
  StoredFrom env pindex (firstTxPos pindex block) block.vtx

/-- Input `a` of transaction `i` spends output `n` of transaction `k`, the last one with its
id before `i`. -/
def Spends (env : ChainEnv) (txs : List CTransaction) (k n i a : ℕ) : Prop :=
  ∃ made spender txin, txs[k]? = some made ∧ txs[i]? = some spender ∧
    ¬ spender.IsCoinBase ∧ spender.vin[a]? = some txin ∧
    txin.prevout = ⟨env.txHash made, n⟩ ∧ k < i ∧
    ∀ m tx, k < m → m < i → txs[m]? = some tx → env.txHash tx ≠ env.txHash made

/-- No output is spent by two inputs. -/
def SpentOnce (env : ChainEnv) (txs : List CTransaction) : Prop :=
  ∀ k n i a j b, Spends env txs k n i a → Spends env txs k n j b → i = j ∧ a = b

/-- No outpoint is named by two inputs. -/
def PrevoutsDistinct (txs : List CTransaction) : Prop :=
  ∀ (i a j b : ℕ) (tx tx' : CTransaction) (txin txin' : CTxIn),
    txs[i]? = some tx → ¬ tx.IsCoinBase → tx.vin[a]? = some txin →
    txs[j]? = some tx' → ¬ tx'.IsCoinBase → tx'.vin[b]? = some txin' →
    txin.prevout = txin'.prevout → i = j ∧ a = b

/-! ## Values of inputs -/

variable {env : ChainEnv} {ctx : NodeContext} {outcome : DbOutcome}

/-- Every entry points to a transaction on disk whose output values are not negative. -/
def IndexStored (env : ChainEnv) (index : TxIndexTable) : Prop :=
  ∀ hash e, index.lookup hash = some e → e.pos ≠ ⟨1, 1, 1⟩ ∧
    ∃ tx, env.readTxFromDisk e.pos = some tx ∧ ∀ txout ∈ tx.vout, 0 ≤ txout.nValue

variable {index : TxIndexTable} {tx : CTransaction} {pos : CDiskTxPos}

theorem unspentValue_nonneg (hstored : IndexStored env index) (hash : uint256) :
    0 ≤ (index.lookup hash).elim 0 (unspentValue env.readTxFromDisk) := by
  cases he : index.lookup hash with
  | none => simp
  | some e =>
    obtain ⟨-, tx, hread, hnonneg⟩ := hstored hash e he
    simp only [elim_some, unspentValue, hread]
    exact unspentSum_nonneg hnonneg e.vSpent

/-- `GetValueIn` adds up the values that the index gives to the outpoints. -/
theorem getValueIn_eq {inputs : MapPrevTx} {v : ℤ} (hcoinBase : ¬ tx.IsCoinBase)
    (hstored : IndexStored env index)
    (hinputs : ∀ hash prev, inputs.lookup hash = some prev → Fetched env index hash prev)
    (h : getValueIn inputs tx = some v) :
    v = ((tx.vin.map CTxIn.prevout).map (outputValue env.readTxFromDisk index)).sum := by
  have hloop : ∀ (vin : List CTxIn) (acc v : ℤ), vin.foldlM (fun nResult txin =>
        (getOutputFor inputs txin).map fun txout => nResult + txout.nValue) acc = some v →
      v = acc + ((vin.map CTxIn.prevout).map (outputValue env.readTxFromDisk index)).sum := by
    intro vin
    induction vin with
    | nil =>
      intro acc v h
      cases h
      simp
    | cons txin vin ih =>
      intro acc v h
      obtain ⟨acc', hacc, hrest⟩ := foldlM_cons_eq_some.mp h
      obtain ⟨txout, hout, rfl⟩ := map_eq_some_iff.mp hacc
      obtain ⟨prev, hprev, hget⟩ := bind_eq_some_iff.mp hout
      obtain ⟨hlookup, hread⟩ := hinputs _ _ hprev
      obtain ⟨hpos, -⟩ := hstored _ _ hlookup
      have hvalue : outputValue env.readTxFromDisk index txin.prevout = txout.nValue := by
        simp [outputValue, hlookup, hread hpos, hget]
      rw [ih _ _ hrest, map_cons, map_cons, sum_cons]
      omega
  rw [getValueIn, if_neg hcoinBase] at h
  simpa using hloop tx.vin 0 v h

/-! ## Connecting one transaction -/

/-- The abstract ledger on transactions; it does not matter where they are stored. -/
def txLedger (env : ChainEnv) : Consumption CTransaction COutPoint where
  creates tx := ledger.creates (txEffect env tx .null)
  consumes tx := ledger.consumes (txEffect env tx .null)

/-- The value that the coinbases among `txs` pay out. -/
def coinBaseValue (txs : List CTransaction) : ℤ :=
  (txs.map fun tx => if tx.IsCoinBase then (tx.vout.map CTxOut.nValue).sum else 0).sum

theorem indexStored_setAllSpent (outs : List COutPoint) :
    ∀ {index : TxIndexTable}, IndexStored env index →
      IndexStored env (setAllSpent pos index outs) := by
  induction outs with
  | nil => intro index h; exact h
  | cons o outs ih =>
    intro index h
    apply ih
    intro hash e he
    rw [lookup_setSpent] at he
    split at he
    · obtain ⟨e', he', rfl⟩ := map_eq_some_iff.mp he
      exact h hash e' he'
    · exact h hash e he

variable {index' : TxIndexTable} {pindex : CBlockIndex} {pprevs : List CBlockIndex} {txdb : CTxDB}
  {a : ℕ} {txin : CTxIn}

section

variable (hchecked : tx.checkTransaction = true) (hread : env.readTxFromDisk pos = some tx)
include hchecked hread

theorem indexStored_apply (hpos : pos ≠ ⟨1, 1, 1⟩)
    (hstored : IndexStored env index) (h : (txEffect env tx pos).apply index = some index') :
    IndexStored env index' := by
  obtain ⟨mid, hmid, rfl⟩ := TxEffect.apply_eq_some.mp h
  obtain ⟨-, rfl⟩ := foldlM_spendOutput (txEffect_nodup hchecked) hmid
  intro hash e he
  rw [Table.lookup_insert_ite] at he
  split at he
  · cases he
    exact ⟨hpos, tx, hread, CTransaction.nonneg_of_checkTransaction hchecked⟩
  · exact indexStored_setAllSpent _ hstored hash e he

theorem unspentTotal_apply (hpos : ¬ pos.IsNull)
    (hstored : IndexStored env index) (h : (txEffect env tx pos).apply index = some index') :
    unspentTotal env.readTxFromDisk index' ≤ unspentTotal env.readTxFromDisk index
      - ((txEffect env tx pos).spends.map (outputValue env.readTxFromDisk index)).sum
      + (tx.vout.map CTxOut.nValue).sum := by
  obtain ⟨mid, hmid, rfl⟩ := TxEffect.apply_eq_some.mp h
  have htotal := foldlM_spendOutput_total env.readTxFromDisk hpos hmid
  obtain ⟨-, rfl⟩ := foldlM_spendOutput (txEffect_nodup hchecked) hmid
  have hmidStored : IndexStored env
      (setAllSpent (txEffect env tx pos).pos index (txEffect env tx pos).spends) :=
    indexStored_setAllSpent _ hstored
  have hold := unspentValue_nonneg hmidStored (env.txHash tx)
  have hown : unspentValue env.readTxFromDisk (txEffect env tx pos).entry =
      (tx.vout.map CTxOut.nValue).sum := by
    unfold unspentValue
    simp [TxEffect.entry, txEffect, CTxIndex.ofOutputs, hread, unspentSum_replicate]
  rw [← htotal]
  rw [unspentTotal, Table.total_insert, hown]
  exact sub_le_self _ hold

end

/-- What holds in the loop of `ConnectBlock` with the transactions `rest` still to come. -/
structure Connecting (env : ChainEnv) (pindex : CBlockIndex) (txdb : CTxDB)
    (txs : List CTransaction) (state : ConnectState) (rest : List CTransaction) : Prop where
  posInBlock : 1 < state.nTxPos
  onDisk : StoredFrom env pindex state.nTxPos rest
  checked : ∀ tx ∈ rest, tx.checkTransaction = true
  stored : IndexStored env (queuedIndex state.mapQueuedChanges txdb)
  run : ∃ done, txs = done ++ rest ∧ (txLedger env).Run (liveOutputs txdb.view.tx) done
    (liveOutputs (queuedIndex state.mapQueuedChanges txdb))
  bound : unspentTotal env.readTxFromDisk (queuedIndex state.mapQueuedChanges txdb)
      + state.nFees + coinBaseValue rest ≤
    unspentTotal env.readTxFromDisk txdb.view.tx + coinBaseValue txs

theorem fileNumber_of_read (h : env.readTxFromDisk pos = some tx) : ¬ pos.IsNull := by
  intro hnull
  unfold ChainEnv.readTxFromDisk openBlockFile at h
  simp [show pos.nFile = uintMax from hnull] at h

theorem connectTx_connecting {txs : List CTransaction} (tx : CTransaction)
    (rest : List CTransaction) (state state' : ConnectState)
    (hinv : Connecting env pindex txdb txs state (tx :: rest))
    (h : connectTx env ctx outcome txdb pindex pprevs false state tx = some state') :
    Connecting env pindex txdb txs state' rest := by
  have happly := connectTx_effect h
  have hchecked := hinv.checked tx mem_cons_self
  obtain ⟨hread, hrest⟩ := hinv.onDisk
  have hpos := fileNumber_of_read hread
  have hgenuine : (⟨pindex.nFile, pindex.nBlockPos, state.nTxPos⟩ : CDiskTxPos) ≠ ⟨1, 1, 1⟩ := by
    intro he
    have hlt := hinv.posInBlock
    rw [show state.nTxPos = 1 from congrArg CDiskTxPos.nTxPos he] at hlt
    omega
  have htotal := unspentTotal_apply hchecked hread hpos hinv.stored happly
  obtain ⟨hnext, hcases⟩ := connectTx_cases h
  refine ⟨?_, ?_, ?_, ?_, ?_, ?_⟩
  · have hlt := hinv.posInBlock
    omega
  · rw [hnext]
    exact hrest
  · exact fun t ht => hinv.checked t (mem_cons_of_mem _ ht)
  · exact indexStored_apply hchecked hread hgenuine hinv.stored happly
  · obtain ⟨done, rfl, hrun⟩ := hinv.run
    have hstep := TxEffect.apply_step (txEffect_nodup hchecked) hpos happly
    refine ⟨done ++ [tx], by simp, hrun.append ⟨_, ⟨hstep.enabled, hstep.left⟩, rfl⟩⟩
  · have hbound := hinv.bound
    have hsplit : coinBaseValue (tx :: rest) =
        (if tx.IsCoinBase then (tx.vout.map CTxOut.nValue).sum else 0) + coinBaseValue rest := by
      unfold coinBaseValue
      rw [map_cons, sum_cons]
    rw [hsplit] at hbound
    obtain ⟨hcoinBase, hfees, -⟩ | ⟨hcoinBase, c, hfees, -⟩ := hcases
    · simp only [txEffect, if_pos hcoinBase, map_nil, sum_nil] at htotal hbound
      omega
    · have hin := getValueIn_eq hcoinBase hinv.stored (fetchInputs_ok c.hfetch) c.hvalueIn
      have hout := CTransaction.getValueOut_eq_some c.hvalueOut
      simp only [txEffect, if_neg hcoinBase] at htotal
      rw [if_neg hcoinBase] at hbound
      omega

/-! ## Connecting a chain -/

theorem coinBaseValue_block {coinBase : CTransaction} {rest : List CTransaction}
    (hhead : coinBase.IsCoinBase) (hrest : ∀ tx ∈ rest, ¬ tx.IsCoinBase) :
    coinBaseValue (coinBase :: rest) = (coinBase.vout.map CTxOut.nValue).sum := by
  have hzero : rest.map (fun tx => if tx.IsCoinBase then (tx.vout.map CTxOut.nValue).sum else 0) =
      rest.map fun _ => (0 : ℤ) :=
    map_congr_left fun tx htx => if_neg (hrest tx htx)
  rw [coinBaseValue, map_cons, if_pos hhead, hzero]
  simp

theorem getProofOfWorkReward_add (fTestNet : Bool) (nHeight : ℕ) (nFees : ℤ) :
    getProofOfWorkReward fTestNet nHeight nFees =
      getProofOfWorkReward fTestNet nHeight 0 + nFees := by
  unfold getProofOfWorkReward
  rw [add_zero]

theorem connectBlock_supply {txdb' : CTxDB} {block : CBlock} (hdisk : BlockStored env pindex block)
    (hstored : IndexStored env txdb.view.tx)
    (h : connectBlock env ctx outcome txdb pindex pprevs false block = some txdb') :
    IndexStored env txdb'.view.tx ∧
      unspentTotal env.readTxFromDisk txdb'.view.tx ≤
        unspentTotal env.readTxFromDisk txdb.view.tx
          + getProofOfWorkReward env.fTestNet pindex.nHeight 0 ∧
      (txLedger env).Run (liveOutputs txdb.view.tx) block.vtx (liveOutputs txdb'.view.tx) := by
  obtain ⟨hcheck, state, coinBase, nValueOut, hloop, hhead, hvalueOut, hreward, hview⟩ :=
    connectBlock_cases h
  obtain ⟨hchecked, -, hfirst, hothers⟩ := checkBlock_spec hcheck
  obtain ⟨rest, hvtx⟩ : ∃ rest, block.vtx = coinBase :: rest :=
    ⟨block.vtx.tail, eq_cons_of_mem_head? hhead⟩
  have hstart : queuedIndex ∅ txdb = txdb.view.tx := Finmap.empty_union
  have hinit : Connecting env pindex txdb block.vtx ⟨∅, 0, 0, firstTxPos pindex block⟩
      block.vtx := by
    refine ⟨?_, hdisk, hchecked, hstart ▸ hstored, ⟨[], rfl, congrArg liveOutputs hstart.symm⟩, ?_⟩
    · change 1 < firstTxPos pindex block
      unfold firstTxPos
      omega
    · change unspentTotal _ (queuedIndex ∅ txdb) + 0 + _ ≤ _
      rw [hstart]
      omega
  have hend := foldlM_invariant (fun tx rest s s' => connectTx_connecting tx rest s s') hinit hloop
  obtain ⟨done, hdone, hrun⟩ := hend.run
  have hbound := hend.bound
  rw [hview]
  refine ⟨hend.stored, ?_, ?_⟩
  · have hcoinBase : coinBaseValue block.vtx = nValueOut := by
      rw [hvtx] at hfirst hothers ⊢
      rw [CTransaction.getValueOut_eq_some hvalueOut]
      exact coinBaseValue_block (hfirst coinBase mem_cons_self) hothers
    have hnil : coinBaseValue [] = 0 := rfl
    rw [getProofOfWorkReward_add] at hreward
    omega
  · rw [append_nil] at hdone
    rwa [hdone]

/-- What holds of the index after a chain of blocks with the transactions `txs`. -/
structure Connected (env : ChainEnv) (txdb : CTxDB) (txs : List CTransaction)
    (reward : ℤ) : Prop where
  stored : IndexStored env txdb.view.tx
  bound : unspentTotal env.readTxFromDisk txdb.view.tx ≤ reward
  run : (txLedger env).Run ∅ txs (liveOutputs txdb.view.tx)
  checked : ∀ tx ∈ txs, tx.checkTransaction = true

theorem connectChain_connected {steps : List ConnectStep} :
    ∀ {txdb txdb' : CTxDB} {txs : List CTransaction} {reward : ℤ},
      (∀ s ∈ steps, BlockStored env s.pindex s.block) → Connected env txdb txs reward →
      connectChain env txdb steps = some txdb' →
      Connected env txdb' (txs ++ steps.flatMap fun s => s.block.vtx) (reward + (steps.map fun s =>
          getProofOfWorkReward env.fTestNet s.pindex.nHeight 0).sum) := by
  induction steps with
  | nil =>
    intro txdb txdb' txs reward _ hinv h
    cases h
    simpa using hinv
  | cons s steps ih =>
    intro txdb txdb' txs reward hdisk hinv h
    obtain ⟨mid, hmid, hrest⟩ := foldlM_cons_eq_some.mp h
    obtain ⟨hstored, hbound, hrun⟩ :=
      connectBlock_supply (hdisk s mem_cons_self) hinv.stored hmid
    obtain ⟨hchecked, -⟩ := checkBlock_spec (connectBlock_cases hmid).1
    have hmidInv : Connected env mid (txs ++ s.block.vtx)
        (reward + getProofOfWorkReward env.fTestNet s.pindex.nHeight 0) := by
      refine ⟨hstored, ?_, hinv.run.append hrun, ?_⟩
      · have hprev := hinv.bound
        omega
      · intro tx htx
        rcases mem_append.mp htx with htx | htx
        · exact hinv.checked tx htx
        · exact hchecked tx htx
    have hend := ih (fun s' hs' => hdisk s' (mem_cons_of_mem _ hs')) hmidInv hrest
    rw [flatMap_cons, map_cons, sum_cons, ← append_assoc, ← add_assoc]
    exact hend

/-! ## Every output is spent once -/

theorem txLedger_consumes (hcoinBase : ¬ tx.IsCoinBase) (ha : tx.vin[a]? = some txin) :
    (txLedger env).consumes tx txin.prevout := by
  change txin.prevout ∈ (txEffect env tx .null).spends
  simp only [txEffect, if_neg hcoinBase]
  exact List.mem_map_of_mem (mem_of_getElem? ha)

theorem input_unique {b : ℕ} {txin' : CTxIn} (hchecked : tx.checkTransaction = true)
    (ha : tx.vin[a]? = some txin) (hb : tx.vin[b]? = some txin')
    (heq : txin.prevout = txin'.prevout) : a = b := by
  have hnodup := CTransaction.nodup_of_checkTransaction hchecked
  have ha' : (tx.vin.map CTxIn.prevout)[a]? = some txin.prevout := by simp [ha]
  have hb' : (tx.vin.map CTxIn.prevout)[b]? = some txin.prevout := by simp [hb, heq]
  have hlt := (List.getElem?_eq_some_iff.mp ha').1
  exact (getElem?_inj hlt hnodup).mp (ha'.trans hb'.symm)

section SpentOnce

variable {txs : List CTransaction} {live : Set COutPoint}

section

variable (hrun : (txLedger env).Run ∅ txs live)
include hrun

/-- A later spend of the same outpoint comes after a transaction that makes it anew. -/
theorem remade_between {i j a b : ℕ} {tx' : CTransaction}
    {txin txin' : CTxIn} (hij : i < j) (hi : txs[i]? = some tx) (hcoinBase : ¬ tx.IsCoinBase)
    (ha : tx.vin[a]? = some txin) (hj : txs[j]? = some tx') (hcoinBase' : ¬ tx'.IsCoinBase)
    (hb : tx'.vin[b]? = some txin') (heq : txin.prevout = txin'.prevout) :
    ∃ m made, i ≤ m ∧ m < j ∧ txs[m]? = some made ∧ txin.prevout.hash = env.txHash made := by
  have hconsumes : (txLedger env).consumes tx txin.prevout := txLedger_consumes hcoinBase ha
  have hconsumes' : (txLedger env).consumes tx' txin'.prevout := txLedger_consumes hcoinBase' hb
  rw [← heq] at hconsumes'
  obtain ⟨m, made, him, hmj, hm, hid, -⟩ :=
    hrun.created_between hij hi hj hconsumes hconsumes'
  exact ⟨m, made, him, hmj, hm, hid⟩

theorem spentOnce_of_run
    (hchecked : ∀ tx ∈ txs, tx.checkTransaction = true) : SpentOnce env txs := by
  have hordered : ∀ k n i a j b, Spends env txs k n i a → Spends env txs k n j b → ¬ i < j := by
    rintro k n i a j b ⟨made, tx, txin, hk, hi, hcb, ha, hprev, hki, -⟩
      ⟨made', tx', txin', hk', hj, hcb', hb, hprev', hkj, hlast⟩ hij
    obtain rfl : made = made' := Option.some.inj (hk.symm.trans hk')
    obtain ⟨m, remade, him, hmj, hm, hid⟩ := remade_between hrun hij hi hcb ha hj hcb' hb
      (hprev.trans hprev'.symm)
    rw [hprev] at hid
    exact hlast m remade (by omega) hmj hm hid.symm
  intro k n i a j b hspend hspend'
  obtain rfl : i = j := by
    have h1 := hordered k n i a j b hspend hspend'
    have h2 := hordered k n j b i a hspend' hspend
    omega
  obtain ⟨made, tx, txin, hk, hi, -, ha, hprev, -, -⟩ := hspend
  obtain ⟨made', tx', txin', hk', hi', -, hb, hprev', -, -⟩ := hspend'
  obtain rfl : made = made' := Option.some.inj (hk.symm.trans hk')
  obtain rfl : tx = tx' := Option.some.inj (hi.symm.trans hi')
  exact ⟨rfl, input_unique (hchecked tx (mem_of_getElem? hi)) ha hb (hprev.trans hprev'.symm)⟩

theorem prevoutsDistinct_of_run
    (hchecked : ∀ tx ∈ txs, tx.checkTransaction = true) (hids : (txs.map env.txHash).Nodup) :
    PrevoutsDistinct txs := by
  have hordered : ∀ (i a j b : ℕ) (tx tx' : CTransaction) (txin txin' : CTxIn),
      txs[i]? = some tx → ¬ tx.IsCoinBase → tx.vin[a]? = some txin →
      txs[j]? = some tx' → ¬ tx'.IsCoinBase → tx'.vin[b]? = some txin' →
      txin.prevout = txin'.prevout → ¬ i < j := by
    intro i a j b tx tx' txin txin' hi hcb ha hj hcb' hb heq hij
    obtain ⟨m, remade, him, -, hm, hid⟩ := remade_between hrun hij hi hcb ha hj hcb' hb heq
    rcases hrun.origin hi (txLedger_consumes hcb ha) with hempty | ⟨m0, made, hm0, hmade, hid0, -⟩
    · exact absurd hempty (Set.notMem_empty _)
    · -- two transactions with one id, at `m0 < i` and at `m ≥ i`
      have h0 : (txs.map env.txHash)[m0]? = some txin.prevout.hash := by
        simp [hmade, show txin.prevout.hash = env.txHash made from hid0]
      have h1 : (txs.map env.txHash)[m]? = some txin.prevout.hash := by simp [hm, hid]
      have hlt := (List.getElem?_eq_some_iff.mp h0).1
      have hsame : m0 = m := (getElem?_inj hlt hids).mp (h0.trans h1.symm)
      omega
  intro i a j b tx tx' txin txin' hi hcb ha hj hcb' hb heq
  obtain rfl : i = j := by
    have h1 := hordered i a j b tx tx' txin txin' hi hcb ha hj hcb' hb heq
    have h2 := hordered j b i a tx' tx txin' txin hj hcb' hb hi hcb ha heq.symm
    omega
  obtain rfl : tx = tx' := Option.some.inj (hi.symm.trans hj)
  exact ⟨rfl, input_unique (hchecked tx (mem_of_getElem? hi)) ha hb heq⟩

end

end SpentOnce

/-- Over every chain of connected blocks, from the empty transaction index, the unspent
outputs are worth no more than the rewards of the connected heights, and every output is
spent at most once; when the transaction ids are pairwise distinct, no outpoint is named by
two inputs. -/
theorem connectChain_noInflation_noDoubleSpend {steps : List ConnectStep} {txdb txdb' : CTxDB}
    (hempty : txdb.view.tx = ∅) (hdisk : ∀ s ∈ steps, BlockStored env s.pindex s.block)
    (h : connectChain env txdb steps = some txdb') :
    unspentTotal env.readTxFromDisk txdb'.view.tx ≤
        (steps.map fun s => getProofOfWorkReward env.fTestNet s.pindex.nHeight 0).sum ∧
      SpentOnce env (steps.flatMap fun s => s.block.vtx) ∧
      (((steps.flatMap fun s => s.block.vtx).map env.txHash).Nodup →
        PrevoutsDistinct (steps.flatMap fun s => s.block.vtx)) := by
  have hstart : Connected env txdb [] 0 := by
    refine ⟨?_, ?_, ?_, by simp⟩
    · intro hash e he
      rw [hempty] at he
      contradiction
    · rw [hempty]
      exact le_of_eq (Table.total_empty _)
    · rw [hempty, liveOutputs_empty]
      rfl
  have hend := connectChain_connected hdisk hstart h
  rw [zero_add] at hend
  exact ⟨hend.bound, spentOnce_of_run hend.run hend.checked,
    prevoutsDistinct_of_run hend.run hend.checked⟩

def SampleBlock.chain : List ConnectStep :=
  [⟨SampleBlock.sampleCtx, fun _ => true, SampleBlock.pindex, [], SampleBlock.block⟩]

theorem connectChain_noInflation_noDoubleSpend_example :
    ∃ txdb', connectChain SampleBlock.sampleEnv SampleBlock.txdb SampleBlock.chain =
        some txdb' ∧
      unspentTotal SampleBlock.sampleEnv.readTxFromDisk txdb'.view.tx ≤ 50 * COIN ∧
      PrevoutsDistinct SampleBlock.block.vtx := by
  obtain ⟨txdb', hblock⟩ := isSome_iff_exists.mp SampleBlock.connectBlock_isSome
  have h : connectChain SampleBlock.sampleEnv SampleBlock.txdb SampleBlock.chain =
      some txdb' := by
    rw [connectChain, SampleBlock.chain, foldlM_cons, hblock]
    rfl
  have hdisk : ∀ s ∈ SampleBlock.chain, BlockStored SampleBlock.sampleEnv s.pindex s.block := by
    intro s hs
    cases mem_singleton.mp hs
    exact ⟨by decide, by decide, trivial⟩
  obtain ⟨hbound, -, hdistinct⟩ := connectChain_noInflation_noDoubleSpend rfl hdisk h
  exact ⟨txdb', h, hbound, hdistinct (by decide)⟩

end Phoenixcoin.Analysis
