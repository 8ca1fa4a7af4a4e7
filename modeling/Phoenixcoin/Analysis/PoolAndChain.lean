import Phoenixcoin.Analysis.AtomicAdd
import Phoenixcoin.Analysis.MempoolSpends

/-!
# The pool and the chain stay apart

No transaction of the memory pool has an entry in the transaction index, whatever is accepted and
however the chain changes. A reorganisation puts transactions back without looking at the index,
but their entries are gone by then, and what it has connected is removed again.
-/

set_option autoImplicit false

namespace Phoenixcoin.Analysis

open Lib Program Model List Option CChainImportBatch SampleFork CTxDB

/-! ## Entries of the index -/

section Entries

variable {env : ChainEnv} {ctx : NodeContext} {outcome : DbOutcome} {hash : uint256}

variable {txdb txdb' : CTxDB}

variable {block : CBlock} {pprevs : List CBlockIndex} {tx : CTransaction}

theorem connectBlock_lookup_none {pindex : CBlockIndex} (hnone : txdb.view.tx.lookup hash = none)
    (hother : ∀ tx ∈ block.vtx, env.txHash tx ≠ hash)
    (h : connectBlock env ctx outcome txdb pindex pprevs false block = some txdb') :
    txdb'.view.tx.lookup hash = none := by
  obtain ⟨hcheck, state, coinBase, nValueOut, hloop, -, -, -, hview⟩ := connectBlock_cases h
  obtain ⟨hchecked, -, -, -⟩ := checkBlock_spec hcheck
  have hstart : queuedIndex ∅ txdb = txdb.view.tx := Finmap.empty_union
  have hrun := @foldlM_invariant _ _ (connectTx env ctx outcome txdb pindex pprevs false)
    (fun state rest => (queuedIndex state.mapQueuedChanges txdb).lookup hash = none ∧
      ∀ tx ∈ rest, tx.checkTransaction = true ∧ env.txHash tx ≠ hash) ?_ block.vtx
    ⟨∅, 0, 0, firstTxPos pindex block⟩ state
    ⟨hstart ▸ hnone, fun tx htx => ⟨hchecked tx htx, hother tx htx⟩⟩ hloop
  · rw [hview]
    exact hrun.1
  · intro tx rest state state' hstate hconnect
    obtain ⟨hlookup, hrest⟩ := hstate
    obtain ⟨hcheckedTx, hne⟩ := hrest tx mem_cons_self
    refine ⟨?_, fun t ht => hrest t (mem_cons_of_mem _ ht)⟩
    exact TxEffect.lookup_apply_none (txEffect_nodup hcheckedTx) (connectTx_effect hconnect)
      (Ne.symm hne) hlookup

theorem disconnectInput_lookup_none {txin : CTxIn} (hnone : txdb.view.tx.lookup hash = none)
    (h : disconnectInput env outcome tx txdb txin = some txdb') :
    txdb'.view.tx.lookup hash = none := by
  simp only [disconnectInput, bind_eq_bind, bind_eq_some_iff, exists_guard_eq_some] at h
  obtain ⟨txindex, hread, -, hupdate⟩ := h
  have hne : hash ≠ txin.prevout.hash := by
    intro heq
    unfold readTxIndex at hread
    split at hread
    · rw [heq, hread] at hnone
      cases hnone
    · cases hread
  unfold updateTxIndex at hupdate
  split at hupdate
  · cases hupdate
    rw [view_update]
    rw [Table.lookup_insert_ite, if_neg hne, hnone]
  · cases hupdate

theorem disconnectInputs_lookup_none
    (hnone : txdb.view.tx.lookup hash = none ∨
      env.txHash tx = hash ∧ outcome (.disconnectEraseTxIndex (env.txHash tx)) = true)
    (h : disconnectInputs env outcome txdb tx = some txdb') :
    txdb'.view.tx.lookup hash = none := by
  have herased (txdb : CTxDB) (hview : txdb.view.tx.lookup hash = none ∨
      env.txHash tx = hash ∧ outcome (.disconnectEraseTxIndex (env.txHash tx)) = true) :
      ((txdb.eraseTxIndex (outcome (.disconnectEraseTxIndex (env.txHash tx)))
        (env.txHash tx)).getD txdb).view.tx.lookup hash = none := by
    unfold eraseTxIndex
    by_cases hok : outcome (.disconnectEraseTxIndex (env.txHash tx)) = true
    · rw [if_pos hok, getD_some, view_update]
      rw [Table.lookup_erase_ite]
      split
      · rfl
      · next hne => exact hview.resolve_right fun heq => hne heq.1.symm
    · rw [if_neg hok]
      exact hview.resolve_right fun heq => hok heq.2
  unfold disconnectInputs at h
  split at h
  · cases h
    exact herased txdb hnone
  · simp only [bind_eq_bind, bind_eq_some_iff, Option.pure_def, Option.some.injEq] at h
    obtain ⟨txdb1, hinputs, rfl⟩ := h
    refine herased txdb1 (hnone.imp_left fun hview => ?_)
    exact @foldlM_invariant _ _ (disconnectInput env outcome tx)
      (fun txdb _ => txdb.view.tx.lookup hash = none)
      (fun txin _ txdb txdb' hview hinput => disconnectInput_lookup_none hview hinput)
      tx.vin txdb txdb1 hview hinputs

theorem disconnectBlock_lookup_none
    (hok : ∀ tx ∈ block.vtx, outcome (.disconnectEraseTxIndex (env.txHash tx)) = true)
    (hnone : txdb.view.tx.lookup hash = none ∨ ∃ tx ∈ block.vtx, env.txHash tx = hash)
    (h : disconnectBlock env outcome txdb pprevs block = some txdb') :
    txdb'.view.tx.lookup hash = none := by
  simp only [disconnectBlock, bind_eq_bind, bind_eq_some_iff] at h
  obtain ⟨txdb1, hinputs, hprev⟩ := h
  rw [view_tx_writePrevBlockIndex hprev]
  have hrun := @foldlM_invariant _ _ (disconnectInputs env outcome)
    (fun txdb rest => (∀ tx ∈ rest, outcome (.disconnectEraseTxIndex (env.txHash tx)) = true) ∧
      (txdb.view.tx.lookup hash = none ∨ ∃ tx ∈ rest, env.txHash tx = hash)) ?_
    block.vtx.reverse txdb txdb1
    ⟨fun tx htx => hok tx (mem_reverse.mp htx), ?_⟩ hinputs
  · refine hrun.2.resolve_right ?_
    rintro ⟨tx, hmem, -⟩
    exact absurd hmem not_mem_nil
  · intro tx rest txdb txdb' hstate hdisconnect
    obtain ⟨hall, hview⟩ := hstate
    have herase := hall tx mem_cons_self
    refine ⟨fun t ht => hall t (mem_cons_of_mem _ ht), ?_⟩
    by_cases hlater : ∃ t ∈ rest, env.txHash t = hash
    · exact Or.inr hlater
    · refine Or.inl (disconnectInputs_lookup_none (hview.imp_right ?_) hdisconnect)
      intro hmem
      obtain ⟨t, ht, heq⟩ := hmem
      rcases mem_cons.mp ht with rfl | ht
      · exact ⟨heq, herase⟩
      · exact absurd ⟨t, ht, heq⟩ hlater
  · refine hnone.imp_right fun hmem => ?_
    obtain ⟨tx, htx, heq⟩ := hmem
    exact ⟨tx, mem_reverse.mpr htx, heq⟩

end Entries

/-! ## What calls make of the pool -/

section Pool

variable {env : ChainEnv} {hash : uint256}

/-- A function that puts nothing into the pool but the transaction it is given. -/
def AddsOnly (env : ChainEnv) (acceptToMemoryPool : CTransaction → CTxMemPool → CTxMemPool) :
    Prop :=
  ∀ tx pool hash, hash ∈ (acceptToMemoryPool tx pool).mapTx → hash ∈ pool.mapTx ∨
    env.txHash tx = hash

variable {pool : CTxMemPool}

variable {tx : CTransaction} {vtx : List CTransaction}

theorem mem_accept {A : PoolContext} {txdb : CTxDB} {fCheckInputs : Bool}
    (h : hash ∈ (pool.accept env A txdb tx fCheckInputs).2.mapTx) :
    hash ∈ pool.mapTx ∨
      env.txHash tx = hash ∧ ¬ (fCheckInputs = true ∧ txdb.containsTx hash = true) := by
  unfold CTxMemPool.accept at h
  dsimp only at h
  split_ifs at h with hcheck hcoinbase hlock hstandard hhave hindex hconflict
  all_goals first
    | exact Or.inl h
    | rcases Finmap.mem_insert.mp h with heq | hmem
      · rw [heq]
        exact Or.inr ⟨rfl, hindex⟩
      · exact Or.inl hmem

theorem addsOnly_accept (A : PoolContext) (txdb : CTxDB) :
    AddsOnly env fun tx pool => (pool.accept env A txdb tx false).2 := by
  intro tx pool hash h
  exact (mem_accept h).imp_right And.left

theorem mem_remove (h : hash ∈ (pool.remove env.txHash tx).mapTx) :
    hash ∈ pool.mapTx ∧ env.txHash tx ≠ hash := by
  unfold CTxMemPool.remove at h
  dsimp only at h
  split at h
  · rw [Finmap.mem_erase] at h
    exact ⟨h.2, Ne.symm h.1⟩
  · next hnot =>
    refine ⟨h, ?_⟩
    intro heq
    exact hnot (heq ▸ h)

variable {acceptToMemoryPool : CTransaction → CTxMemPool → CTxMemPool}

theorem mem_foldl_accept (hadds : AddsOnly env acceptToMemoryPool)
    (h : hash ∈ ((vtx.map ChainEvent.acceptToMemoryPool).foldl
      (ChainEvent.updatePool env.txHash acceptToMemoryPool) pool).mapTx) :
    hash ∈ pool.mapTx ∨ ∃ tx ∈ vtx, env.txHash tx = hash := by
  induction vtx generalizing pool with
  | nil => exact Or.inl h
  | cons tx vtx ih =>
    rcases ih h with hmem | ⟨other, hother, heq⟩
    · rcases hadds tx pool hash hmem with hmem | heq
      · exact Or.inl hmem
      · exact Or.inr ⟨tx, mem_cons_self, heq⟩
    · exact Or.inr ⟨other, mem_cons_of_mem _ hother, heq⟩

theorem mem_foldl_remove (h : hash ∈ ((vtx.map ChainEvent.removeFromMemoryPool).foldl
      (ChainEvent.updatePool env.txHash acceptToMemoryPool) pool).mapTx) :
    hash ∈ pool.mapTx ∧ ∀ tx ∈ vtx, env.txHash tx ≠ hash := by
  induction vtx generalizing pool with
  | nil => exact ⟨h, fun tx htx => absurd htx not_mem_nil⟩
  | cons tx vtx ih =>
    obtain ⟨hmem, hrest⟩ := ih h
    obtain ⟨hpool, hne⟩ := mem_remove hmem
    exact ⟨hpool, forall_mem_cons.mpr ⟨hne, hrest⟩⟩

end Pool

/-! ## The database -/

/-- No transaction of the pool has an entry, neither a committed one nor one that the active
transaction sees. -/
def Apart (pool : CTxMemPool) (txdb : CTxDB) : Prop :=
  ∀ hash ∈ pool.mapTx, txdb.stored.tx.lookup hash = none ∧ txdb.view.tx.lookup hash = none

/-- The transaction index is the same, and so is whether a transaction is active. -/
structure SameTxIndex (txdb txdb' : CTxDB) : Prop where
  stored : txdb'.stored.tx = txdb.stored.tx
  view : txdb'.view.tx = txdb.view.tx
  active : txdb'.activeTxn.isSome = txdb.activeTxn.isSome

theorem SameTxIndex.update {f : ChainRecords → ChainRecords} (hf : ∀ r, (f r).tx = r.tx)
    (txdb : CTxDB) : SameTxIndex txdb (txdb.update f) := by
  refine ⟨?_, ?_, ?_⟩
  · unfold CTxDB.update
    split
    · rfl
    · exact hf _
  · rw [CTxDB.view_update, hf]
  · unfold CTxDB.update
    split
    · next hactive =>
      rw [hactive]
      rfl
    · rfl

variable {txdb txdb' : CTxDB}

variable {pool : CTxMemPool} {ok : Bool}

theorem SameTxIndex.apart (h : SameTxIndex txdb txdb') (hapart : Apart pool txdb) :
    Apart pool txdb' := by
  intro hash hmem
  rw [h.stored, h.view]
  exact hapart hash hmem

theorem sameTxIndex_writeHashBestChain {hash : uint256}
    (h : txdb.writeHashBestChain ok hash = some txdb') : SameTxIndex txdb txdb' := by
  unfold writeHashBestChain at h
  split at h
  · cases h
    refine .update ?_ txdb
    exact fun _ => rfl
  · cases h

theorem sameTxIndex_writeBlockIndex {blockHash : CBlockHeader → uint256}
    {diskindex : CDiskBlockIndex} (h : txdb.writeBlockIndex blockHash ok diskindex = some txdb') :
    SameTxIndex txdb txdb' := by
  unfold writeBlockIndex at h
  split at h
  · cases h
    refine .update ?_ txdb
    exact fun _ => rfl
  · cases h

section Database

variable {pool : CTxMemPool} {txdb txdb' : CTxDB}

theorem Apart.txnAbort (h : Apart pool txdb) : Apart pool txdb.txnAbort :=
  fun hash hmem => ⟨(h hash hmem).1, (h hash hmem).1⟩

variable {ok : Bool}

theorem Apart.txnBegin (h : Apart pool txdb) (hbegin : txdb.txnBegin ok = some txdb') :
    Apart pool txdb' := by
  obtain ⟨-, rfl⟩ := txnBegin_eq_some hbegin
  exact fun hash hmem => ⟨(h hash hmem).1, (h hash hmem).1⟩

theorem Apart.txnCommit {fCommitted : Bool} (h : Apart pool txdb)
    (hcommit : txdb.txnCommit ok = (fCommitted, txdb')) :
    Apart pool txdb' ∧ txdb'.activeTxn = none := by
  cases fCommitted with
  | false =>
    rw [txnCommit_eq_false hcommit]
    exact ⟨h.txnAbort, rfl⟩
  | true =>
    obtain ⟨-, -, rfl⟩ := txnCommit_eq_true hcommit
    exact ⟨fun hash hmem => ⟨(h hash hmem).2, (h hash hmem).2⟩, rfl⟩

theorem apart_invalidChainFound {o : ChainOutcome} {n : Node} (pindexNew : uint256)
    (h : Apart pool n.txdb) :
    Apart pool (invalidChainFound o pindexNew { n with txdb := n.txdb.txnAbort }).txdb ∧
      (invalidChainFound o pindexNew { n with txdb := n.txdb.txnAbort }).txdb.activeTxn = none := by
  have habort := h.txnAbort
  unfold invalidChainFound writeBestInvalidWork
  dsimp only
  split
  · split
    · have hsame := SameTxIndex.update (f := fun r =>
        { r with bnBestInvalidWork := some (n.chain.bnChainWork pindexNew) }) (fun _ => rfl)
        n.txdb.txnAbort
      refine ⟨hsame.apart habort, isNone_iff_eq_none.mp ?_⟩
      rfl
    · exact ⟨habort, rfl⟩
  · exact ⟨habort, rfl⟩

end Database

/-! ## Changing the best chain -/

/-- An erase that fails is not committed: the database has given the transaction up. The source
does not look at the result of `EraseTxIndex`. -/
def ErasesReported (o : ChainOutcome) : Prop :=
  ∀ pindexNew hash tx, o.db hash (.disconnectEraseTxIndex tx) = false →
    o.txnCommit pindexNew = false

section BestChain

variable {env : NodeEnv} {o : ChainOutcome}
  {acceptToMemoryPool : CTransaction → CTxMemPool → CTxMemPool} {pool : CTxMemPool}

abbrev poolAfter (env : NodeEnv) (acceptToMemoryPool : CTransaction → CTxMemPool → CTxMemPool)
    (events : List ChainEvent) (pool : CTxMemPool) : CTxMemPool :=
  events.foldl (ChainEvent.updatePool env.txHash acceptToMemoryPool) pool

theorem poolAfter_onlySync {events : List ChainEvent} (h : OnlySync events) :
    poolAfter env acceptToMemoryPool events pool = pool :=
  h.foldl_updatePool env.txHash acceptToMemoryPool pool

theorem poolAfter_append (events events' : List ChainEvent) :
    poolAfter env acceptToMemoryPool (events ++ events') pool =
      poolAfter env acceptToMemoryPool events' (poolAfter env acceptToMemoryPool events pool) :=
  foldl_append

variable {block : CBlock} {fDeferCommit fSuccess : Bool} {n n' : Node}
  {pindexNew pprev hash : uint256} {r : ChainRecords} {s : ChainState} {txdb txdb' : CTxDB}
  {batch batch' : CChainImportBatch}

variable (acceptToMemoryPool) in
theorem setBestChainInner_apart (hactive : n.txdb.activeTxn = some r)
    (hpprev : n.chain.pprev pindexNew = some pprev) (hapart : Apart pool n.txdb)
    (h : setBestChainInner env o fDeferCommit n pindexNew block = (fSuccess, n')) :
    Apart (poolAfter env acceptToMemoryPool
        (setBestChainInnerEvents env o fDeferCommit n pindexNew block) pool) n'.txdb ∧
      (fDeferCommit = false → n'.txdb.activeTxn = none) ∧
      (fSuccess = true → n'.chain.pprev = n.chain.pprev ∧
        (fDeferCommit = true → n'.txdb.activeTxn.isSome = true)) := by
  have hpool : fSuccess = false → poolAfter env acceptToMemoryPool
      (setBestChainInnerEvents env o fDeferCommit n pindexNew block) pool = pool := by
    intro hfalse
    exact poolAfter_onlySync (setBestChainInnerEvents_onlySync (by rw [h]; exact hfalse))
  have hremoved : fSuccess = true → poolAfter env acceptToMemoryPool
      (setBestChainInnerEvents env o fDeferCommit n pindexNew block) pool =
      poolAfter env acceptToMemoryPool (block.vtx.map .removeFromMemoryPool) pool := by
    intro htrue
    rw [setBestChainInnerEvents, h, if_pos htrue, poolAfter_append]
    congr 1
    refine poolAfter_onlySync ?_
    split
    · intro event hmem
      exact ⟨block, mem_singleton.mp hmem⟩
    · exact .nil
  unfold setBestChainInner at h
  dsimp only at h
  split at h
  · cases h
    rw [hpool rfl]
    obtain ⟨hkept, hidle⟩ := apart_invalidChainFound (o := o) pindexNew hapart
    exact ⟨hkept, fun _ => hidle, fun htrue => by cases htrue⟩
  · next txdb2 hwrite =>
    obtain ⟨txdb1, hattach, hbest⟩ := bind_eq_some_iff.mp hwrite
    obtain ⟨pindex, -, hconnect⟩ := bind_eq_some_iff.mp hattach
    obtain ⟨_, -, hwrites⟩ := attachBlock_writes hattach
    obtain ⟨hstored, r1, hactive1⟩ := hwrites.active hactive
    have hsame := sameTxIndex_writeHashBestChain hbest
    have hsome : txdb2.activeTxn.isSome = true := by
      rw [hsame.active, hactive1]
      rfl
    -- What is left of the pool has no entry in the index with the block.
    have hconnected : Apart (poolAfter env acceptToMemoryPool
        (block.vtx.map .removeFromMemoryPool) pool) txdb2 := by
      intro hash hmem
      obtain ⟨hpoolMem, hother⟩ := mem_foldl_remove hmem
      obtain ⟨hstoredNone, hviewNone⟩ := hapart hash hpoolMem
      rw [hsame.stored, hsame.view, hstored]
      exact ⟨hstoredNone, connectBlock_lookup_none hviewNone hother hconnect⟩
    have hbefore : txdb2.stored.tx = n.txdb.stored.tx := by
      rw [hsame.stored, hstored]
    cases fDeferCommit with
    | true =>
      rw [hpprev] at h
      cases h
      rw [hremoved rfl]
      exact ⟨hconnected, fun hfalse => (by cases hfalse),
        fun _ => ⟨(sameTree_link n.chain pindexNew).pprev, fun _ => hsome⟩⟩
    | false =>
      generalize hcommit : txdb2.txnCommit (o.txnCommit (env.blockHash block.toCBlockHeader)) =
        result at h
      obtain ⟨fCommitted, txdb3⟩ := result
      cases fCommitted with
      | false =>
        cases h
        rw [hpool rfl, txnCommit_eq_false hcommit]
        refine ⟨?_, fun _ => rfl, fun htrue => by cases htrue⟩
        intro hash hmem
        have hnone : txdb2.stored.tx.lookup hash = none := by
          rw [hbefore]
          exact (hapart hash hmem).1
        exact ⟨hnone, hnone⟩
      | true =>
        rw [hpprev] at h
        cases h
        rw [hremoved rfl]
        obtain ⟨hkept, hidle⟩ := hconnected.txnCommit hcommit
        exact ⟨hkept, fun _ => hidle,
          fun _ => ⟨(sameTree_link n.chain pindexNew).pprev, fun hdefer => by cases hdefer⟩⟩

/-! ### A reorganisation -/

variable {vDisconnect vConnect : List uint256} {item : ImportedBlock}

theorem disconnectIndexed_lookup_none
    (hok : ∀ pindex tx, o.db pindex (.disconnectEraseTxIndex tx) = true)
    (hnone : txdb.view.tx.lookup hash = none ∨ ∃ tx ∈
      (vDisconnect.filterMap (readIndexed env o s)).flatMap CBlock.vtx, env.txHash tx = hash)
    (h : vDisconnect.foldlM (disconnectIndexed env o s) txdb = some txdb') :
    txdb'.view.tx.lookup hash = none := by
  induction vDisconnect generalizing txdb with
  | nil =>
    cases h
    refine hnone.resolve_right fun hmem => ?_
    obtain ⟨tx, hmem, -⟩ := hmem
    exact absurd hmem not_mem_nil
  | cons pindex rest ih =>
    obtain ⟨txdb1, hfirst, hrest⟩ := foldlM_cons_eq_some.mp h
    obtain ⟨entry, hentry, hread⟩ := bind_eq_some_iff.mp hfirst
    obtain ⟨block, hblock, hdisconnect⟩ := bind_eq_some_iff.mp hread
    have hindexed : readIndexed env o s pindex = some block :=
      bind_eq_some_iff.mpr ⟨entry, hentry, hblock⟩
    rw [filterMap_cons_some hindexed] at hnone
    refine ih ?_ hrest
    by_cases hlater : ∃ tx ∈ (rest.filterMap (readIndexed env o s)).flatMap CBlock.vtx,
        env.txHash tx = hash
    · exact Or.inr hlater
    · refine Or.inl (disconnectBlock_lookup_none (fun tx _ => hok _ _) (hnone.imp_right ?_)
        hdisconnect)
      intro hmem
      obtain ⟨tx, hmem, heq⟩ := hmem
      rcases mem_append.mp hmem with hmem | hmem
      · exact ⟨tx, hmem, heq⟩
      · exact absurd ⟨tx, hmem, heq⟩ hlater

theorem connectIndexed_lookup_none (hnone : txdb.view.tx.lookup hash = none)
    (hother : ∀ tx ∈ (vConnect.filterMap (readIndexed env o s)).flatMap CBlock.vtx,
      env.txHash tx ≠ hash) (h : vConnect.foldlM (connectIndexed env o s) txdb = some txdb') :
    txdb'.view.tx.lookup hash = none := by
  induction vConnect generalizing txdb with
  | nil =>
    cases h
    exact hnone
  | cons pindex rest ih =>
    obtain ⟨txdb1, hfirst, hrest⟩ := foldlM_cons_eq_some.mp h
    obtain ⟨entry, hentry, hread⟩ := bind_eq_some_iff.mp hfirst
    obtain ⟨block, hblock, hattach⟩ := bind_eq_some_iff.mp hread
    obtain ⟨pindex', -, hconnect⟩ := bind_eq_some_iff.mp hattach
    have hindexed : readIndexed env o s pindex = some block :=
      bind_eq_some_iff.mpr ⟨entry, hentry, hblock⟩
    rw [filterMap_cons_some hindexed] at hother
    refine ih ?_ (fun tx hmem => hother tx (mem_append_right _ hmem)) hrest
    exact connectBlock_lookup_none hnone
      (fun tx hmem => hother tx (mem_append_left _ hmem)) hconnect

theorem txnCommit_of_reorganizeDb
    (h : reorganizeDb env o s vDisconnect vConnect pindexNew txdb = some txdb') :
    o.txnCommit pindexNew = true := by
  simp only [reorganizeDb, bind_eq_bind, bind_eq_some_iff] at h
  obtain ⟨txdb1, -, txdb2, -, txdb3, -, hcommit⟩ := h
  generalize hcommitted : txdb3.txnCommit (o.txnCommit pindexNew) = result at hcommit
  obtain ⟨fCommitted, txdb4⟩ := result
  simp only [exists_guard_eq_some] at hcommit
  obtain ⟨rfl, -⟩ := hcommit
  exact (txnCommit_eq_true hcommitted).1

/-- The entries of what a reorganisation puts back are erased before, and what it connects is
removed from the pool after. -/
theorem reorganize_apart (hadds : AddsOnly env.toChainEnv acceptToMemoryPool)
    (herase : ErasesReported o) (hapart : Apart pool n.txdb)
    (h : reorganize env o n pindexNew = some n') :
    Apart (poolAfter env acceptToMemoryPool (reorganizeEvents env o n pindexNew) pool) n'.txdb ∧
      n'.txdb.activeTxn = none ∧ n'.chain.pprev = n.chain.pprev := by
  have hsome := h
  simp only [reorganize, bind_eq_bind, bind_eq_some_iff, Option.pure_def, Option.some.injEq] at h
  obtain ⟨pindexBest, hbest, pfork, hfork, vDisconnect, hdisconnect, l, hconnect, txdb, hdb, rfl⟩ :=
    h
  have hok : ∀ pindex tx, o.db pindex (.disconnectEraseTxIndex tx) = true := by
    intro pindex tx
    by_contra hfail
    have hcommit := herase pindexNew pindex tx (Bool.eq_false_iff.mpr hfail)
    rw [txnCommit_of_reorganizeDb hdb] at hcommit
    cases hcommit
  obtain ⟨txdb1, txdb2, hfirst, hsecond, rfl⟩ := reorganizeDb_cases hdb
  have hevents : poolAfter env acceptToMemoryPool (reorganizeEvents env o n pindexNew) pool =
      poolAfter env acceptToMemoryPool
        (reorganizePoolEvents env o n.chain vDisconnect l.reverse) pool := by
    unfold reorganizeEvents
    simp only [hbest, hfork, hdisconnect, hconnect, bind_eq_bind, bind_some,
      Option.pure_def, hfirst]
    rw [hsome, poolAfter_append]
    congr 1
    exact poolAfter_onlySync (connectEvents_onlySync _ _ _)
  refine ⟨?_, rfl, ?_⟩
  · rw [hevents]
    intro hash hmem
    rw [reorganizePoolEvents, poolAfter_append] at hmem
    obtain ⟨haccepted, hother⟩ := mem_foldl_remove hmem
    have hnone : txdb2.view.tx.lookup hash = none := by
      refine connectIndexed_lookup_none ?_ hother hsecond
      refine disconnectIndexed_lookup_none hok ?_ hfirst
      rcases mem_foldl_accept hadds haccepted with hpool | ⟨tx, htx, heq⟩
      · exact Or.inl (hapart hash hpool).2
      · refine Or.inr ⟨tx, ?_, heq⟩
        obtain ⟨block, hblock, htx⟩ := mem_flatMap.mp htx
        exact mem_flatMap.mpr ⟨block, hblock, mem_of_mem_filter htx⟩
    exact ⟨hnone, hnone⟩
  · have hunlink : ∀ (v : List uint256) (s : ChainState),
        (v.foldl ChainState.unlink s).pprev = s.pprev := by
      intro v
      induction v with
      | nil => exact fun _ => rfl
      | cons a v ih => exact fun s => (ih _).trans (sameTree_unlink s a).pprev
    have hlink : ∀ (v : List uint256) (s : ChainState),
        (v.foldl ChainState.link s).pprev = s.pprev := by
      intro v
      induction v with
      | nil => exact fun _ => rfl
      | cons a v ih => exact fun s => (ih _).trans (sameTree_link s a).pprev
    exact (hlink l.reverse _).trans (hunlink vDisconnect n.chain)

/-! ### Postponed blocks and the branches of `SetBestChain` -/

variable (acceptToMemoryPool) in
theorem connectSecondary_apart {vpindexSecondary : List uint256} {n : Node}
    (hparents : ∀ pindex ∈ vpindexSecondary, ∃ pprev, n.chain.pprev pindex = some pprev)
    (hidle : n.txdb.activeTxn = none) (hapart : Apart pool n.txdb) :
    Apart (poolAfter env acceptToMemoryPool (connectSecondaryEvents env o vpindexSecondary n) pool)
        (connectSecondary env o vpindexSecondary n).txdb ∧
      (connectSecondary env o vpindexSecondary n).txdb.activeTxn = none := by
  induction vpindexSecondary generalizing n pool with
  | nil => exact ⟨hapart, hidle⟩
  | cons pindex rest ih =>
    obtain ⟨pprev, hpprev⟩ := hparents pindex mem_cons_self
    unfold connectSecondary connectSecondaryEvents
    cases hread : readIndexed env o n.chain pindex with
    | none =>
      have hbind : (n.chain.entry pindex).bind
          (readBlockFromDisk env.toChainEnv (o.db pindex .readBlock) pindex) = none := hread
      rw [hbind]
      exact ⟨hapart, hidle⟩
    | some block =>
      have hbind : (n.chain.entry pindex).bind
          (readBlockFromDisk env.toChainEnv (o.db pindex .readBlock) pindex) = some block := hread
      rw [hbind]
      cases hbegin : n.txdb.txnBegin (o.txnBeginSecondary pindex) with
      | none => exact ⟨hapart, hidle⟩
      | some txdb =>
        dsimp only
        have hbegun := hapart.txnBegin hbegin
        have hactive : ∃ r, txdb.activeTxn = some r := by
          obtain ⟨-, rfl⟩ := txnBegin_eq_some hbegin
          exact ⟨_, rfl⟩
        obtain ⟨r, hactive⟩ := hactive
        generalize hinner : setBestChainInner env o false { n with txdb := txdb } pindex block =
          result
        obtain ⟨fSuccess, n1⟩ := result
        obtain ⟨hkept, hclosed, hgoes⟩ := setBestChainInner_apart acceptToMemoryPool
          (n := { n with txdb := txdb }) hactive hpprev hbegun hinner
        rw [poolAfter_append]
        cases fSuccess with
        | false => exact ⟨hkept, hclosed rfl⟩
        | true =>
          refine ih ?_ (hclosed rfl) hkept
          intro other hmem
          rw [(hgoes rfl).1]
          exact hparents other (mem_cons_of_mem _ hmem)

theorem pprev_of_mem_postpone {bnBestWork fuel : ℕ} {pindex other : uint256}
    (h : other ∈ (s.postpone bnBestWork fuel pindex).1) : ∃ pprev, s.pprev other = some pprev := by
  induction fuel generalizing pindex with
  | zero => exact absurd h not_mem_nil
  | succ fuel ih =>
    unfold ChainState.postpone at h
    cases hp : s.pprev pindex with
    | none =>
      rw [hp] at h
      exact absurd h not_mem_nil
    | some pprev =>
      rw [hp] at h
      dsimp only at h
      split at h
      · rcases mem_cons.mp h with rfl | h
        · exact ⟨pprev, hp⟩
        · exact ih h
      · exact absurd h not_mem_nil

theorem switchBranch_apart (hadds : AddsOnly env.toChainEnv acceptToMemoryPool)
    (herase : ErasesReported o) (hapart : Apart pool n.txdb)
    (h : switchBranch env o n pindexNew = (fSuccess, n')) :
    Apart (poolAfter env acceptToMemoryPool (switchBranchEvents env o n pindexNew) pool) n'.txdb ∧
      (fSuccess = true → n'.txdb.activeTxn = none) := by
  unfold switchBranch at h
  unfold switchBranchEvents
  cases hbest : n.chain.pindexBest with
  | none =>
    rw [hbest] at h
    cases h
    exact ⟨hapart, fun htrue => by cases htrue⟩
  | some pindexBest =>
    rw [hbest] at h
    dsimp only at h ⊢
    rw [poolAfter_append]
    cases hreorganize : reorganize env o n
        (n.chain.postpone (n.chain.bnChainWork pindexBest) n.chain.size pindexNew).2 with
    | none =>
      rw [hreorganize] at h
      cases h
      rw [poolAfter_onlySync (reorganizeEvents_onlySync hreorganize)]
      exact ⟨(apart_invalidChainFound pindexNew hapart).1, fun htrue => by cases htrue⟩
    | some n1 =>
      rw [hreorganize] at h
      cases h
      obtain ⟨hkept, hidle, htree⟩ := reorganize_apart hadds herase hapart hreorganize
      obtain ⟨hend, hclosed⟩ := @connectSecondary_apart env o acceptToMemoryPool _ _ _
        (fun other hmem => htree ▸ pprev_of_mem_postpone (mem_reverse.mp hmem)) hidle hkept
      exact ⟨hend, fun _ => hclosed⟩

def TxnEnded (fDeferCommit : Bool) (txdb : CTxDB) : Prop :=
  if fDeferCommit then txdb.activeTxn.isSome = true else txdb.activeTxn = none

section

variable (hadds : AddsOnly env.toChainEnv acceptToMemoryPool) (herase : ErasesReported o)
  (hactive : n.txdb.activeTxn = some r)
include hadds herase hactive

theorem changeBestChain_apart
    (hpprev : n.chain.pprev pindexNew = some pprev) (hapart : Apart pool n.txdb)
    (h : changeBestChain env o fDeferCommit n pindexNew block = (fSuccess, n')) :
    Apart (poolAfter env acceptToMemoryPool
        (changeBestChainEvents env o fDeferCommit n pindexNew block) pool) n'.txdb ∧
      (fSuccess = true → TxnEnded fDeferCommit n'.txdb) := by
  unfold changeBestChain at h
  unfold changeBestChainEvents TxnEnded
  by_cases hgenesis : n.chain.pindexGenesisBlock = none ∧
      env.blockHash block.toCBlockHeader = env.hashGenesisBlock
  · rw [if_pos hgenesis] at h ⊢
    unfold setGenesisBlock at h
    cases hbest : n.txdb.writeHashBestChain
        (o.writeHashBestChain (env.blockHash block.toCBlockHeader))
        (env.blockHash block.toCBlockHeader) with
    | none =>
      rw [hbest] at h
      cases h
      exact ⟨hapart, fun htrue => by cases htrue⟩
    | some txdb =>
      rw [hbest] at h
      dsimp only at h
      have hsame := sameTxIndex_writeHashBestChain hbest
      have hkept := hsame.apart hapart
      cases fDeferCommit with
      | true =>
        cases h
        refine ⟨hkept, fun _ => ?_⟩
        rw [hsame.active, hactive]
        rfl
      | false =>
        generalize hcommit : txdb.txnCommit (o.txnCommit (env.blockHash block.toCBlockHeader)) =
          result at h
        obtain ⟨fCommitted, txdb'⟩ := result
        obtain ⟨hend, hclosed⟩ := hkept.txnCommit hcommit
        cases fCommitted with
        | false =>
          cases h
          exact ⟨hend, fun htrue => by cases htrue⟩
        | true =>
          cases h
          exact ⟨hend, fun _ => hclosed⟩
  · rw [if_neg hgenesis] at h ⊢
    by_cases hextends : block.hashPrevBlock = n.chain.hashBestChain
    · rw [if_pos hextends] at h ⊢
      obtain ⟨hkept, hclosed, hgoes⟩ :=
        setBestChainInner_apart acceptToMemoryPool hactive hpprev hapart h
      refine ⟨hkept, fun htrue => ?_⟩
      cases fDeferCommit with
      | true => exact (hgoes htrue).2 rfl
      | false => exact hclosed rfl
    · rw [if_neg hextends] at h ⊢
      cases fDeferCommit with
      | true =>
        cases h
        exact ⟨hapart.txnAbort, fun htrue => by cases htrue⟩
      | false =>
        exact switchBranch_apart hadds herase hapart h

theorem setBestChain_apart
    (hpprev : n.chain.pprev pindexNew = some pprev) (hapart : Apart pool n.txdb)
    (h : setBestChain env o true fDeferCommit n pindexNew block = (fSuccess, n')) :
    Apart (poolAfter env acceptToMemoryPool
        (setBestChainEvents env o true fDeferCommit n pindexNew block) pool) n'.txdb ∧
      (fSuccess = true → TxnEnded fDeferCommit n'.txdb) := by
  unfold setBestChain at h
  unfold setBestChainEvents
  rw [if_pos rfl] at h ⊢
  dsimp only at h ⊢
  generalize hchange :
    changeBestChain env o fDeferCommit { n with txdb := n.txdb } pindexNew block = result at h
  obtain ⟨fChanged, n1⟩ := result
  obtain ⟨hkept, hended⟩ := changeBestChain_apart (n := { n with txdb := n.txdb }) hadds herase
    hactive hpprev hapart hchange
  cases fChanged with
  | false =>
    cases h
    exact ⟨hkept, fun htrue => by cases htrue⟩
  | true =>
    cases h
    exact ⟨hkept, fun _ => hended rfl⟩

/-! ### Adding a block -/

theorem writeNewBlock_apart {fBatch : Bool} {pindexNew : CBlockIndex}
    (hpprev : n.chain.pprev hash = some pprev)
    (hwork : fBatch = true → pindexNew.bnChainWork > n.chain.bnBestChainWork)
    (hapart : Apart pool n.txdb)
    (h : writeNewBlock env o fBatch n hash pindexNew block = (fSuccess, n')) :
    Apart (poolAfter env acceptToMemoryPool
        (writeNewBlockEvents env o fBatch n hash pindexNew block) pool) n'.txdb ∧
      (fSuccess = true → TxnEnded fBatch n'.txdb) := by
  unfold writeNewBlock at h
  unfold writeNewBlockEvents
  cases hwrite : n.txdb.writeBlockIndex env.blockHash o.writeBlockIndex
      (CDiskBlockIndex.ofBlockIndex pindexNew) with
  | none =>
    rw [hwrite] at h
    cases h
    exact ⟨hapart, fun htrue => by cases htrue⟩
  | some txdb =>
    rw [hwrite] at h
    dsimp only at h ⊢
    have hsame := sameTxIndex_writeBlockIndex hwrite
    have hkept := hsame.apart hapart
    by_cases hmore : pindexNew.bnChainWork > n.chain.bnBestChainWork
    · rw [if_pos hmore] at h ⊢
      have hopen : ∃ r', txdb.activeTxn = some r' := by
        rw [← isSome_iff_exists, hsame.active, hactive]
        rfl
      obtain ⟨r', hopen⟩ := hopen
      exact setBestChain_apart (n := { n with txdb := txdb }) hadds herase hopen hpprev hkept h
    · rw [if_neg hmore] at h ⊢
      generalize hcommit : txdb.txnCommit (o.txnCommit hash) = result at h
      obtain ⟨hend, hclosed⟩ := hkept.txnCommit hcommit
      cases h
      refine ⟨hend, fun _ => ?_⟩
      cases fBatch with
      | true => exact absurd (hwork rfl) hmore
      | false => exact hclosed

end

/-- What holds of pool, database and batch between two calls. -/
structure PoolApart (pool : CTxMemPool) (n : Node) (batch : CChainImportBatch) : Prop where
  apart : Apart pool n.txdb
  ended : TxnEnded batch.fActive n.txdb

/-- Adding a block keeps the pool apart. Without a batch no transaction is left open; under a
batch one is left open unless the call fails, after which the batch is aborted. -/
theorem addToBlockIndex_apart (hadds : AddsOnly env.toChainEnv acceptToMemoryPool)
    (herase : ErasesReported o) {nFile nBlockPos : ℕ}
    (hparent : block.hashPrevBlock ∈ n.chain.mapBlockIndex) (hinv : PoolApart pool n batch)
    (h : addToBlockIndex env o nFile nBlockPos block n batch = (fSuccess, n', batch')) :
    batch'.fActive = batch.fActive ∧
      Apart (addToBlockIndexPool env o acceptToMemoryPool nFile nBlockPos block n batch pool)
        n'.txdb ∧
      (fSuccess = true ∨ batch.fActive = false → TxnEnded batch.fActive n'.txdb) := by
  obtain ⟨hapart, hended⟩ := hinv
  unfold addToBlockIndexPool addToBlockIndexEvents
  unfold addToBlockIndex at h
  generalize env.blockHash block.toCBlockHeader = hash at h ⊢
  by_cases hknown : hash ∈ n.chain.mapBlockIndex
  · rw [if_pos hknown] at h ⊢
    cases h
    exact ⟨rfl, hapart, fun _ => hended⟩
  · rw [if_neg hknown] at h ⊢
    have hpprev : (insertEntry n.chain hash
        (newBlockIndex n.chain hash nFile nBlockPos block)).pprev hash =
          some block.hashPrevBlock := by
      rw [pprev_insertEntry_self]
      exact newBlockIndex_pprev_of_mem hparent
    by_cases hbatch : batch.fActive = true
    · rw [if_pos hbatch] at h ⊢
      rw [TxnEnded, if_pos hbatch] at hended
      obtain ⟨r, hactive⟩ := isSome_iff_exists.mp hended
      by_cases hextends : batch.isExtending n.chain block.hashPrevBlock
          (newBlockIndex n.chain hash nFile nBlockPos block).bnChainWork = true
      · rw [if_pos hextends] at h ⊢
        generalize hwrite : writeNewBlock env o true _ hash _ block = result at h
        cases h
        have hmore : (newBlockIndex n.chain hash nFile nBlockPos block).bnChainWork >
            n.chain.bnBestChainWork := by
          unfold isExtending at hextends
          simp only [Bool.and_eq_true, decide_eq_true_eq] at hextends
          exact hextends.2
        obtain ⟨hkept, hend⟩ := writeNewBlock_apart
          (n := ⟨insertEntry n.chain hash
            (newBlockIndex n.chain hash nFile nBlockPos block), n.txdb⟩)
          hadds herase hactive hpprev (fun _ => hmore) hapart hwrite
        refine ⟨rfl, hkept, fun hor => ?_⟩
        rw [hbatch]
        exact hend (hor.resolve_right (by rw [hbatch]; exact Bool.noConfusion))
      · rw [if_neg hextends] at h ⊢
        cases h
        refine ⟨rfl, hapart, fun _ => ?_⟩
        rw [TxnEnded, if_pos hbatch]
        exact hended
    · rw [if_neg hbatch] at h ⊢
      have hoff : batch.fActive = false := Bool.eq_false_iff.mpr hbatch
      rw [TxnEnded, if_neg hbatch] at hended
      unfold addAlone at h
      rw [hoff]
      cases hbegin : n.txdb.txnBegin o.txnBegin with
      | none =>
        rw [hbegin] at h
        cases h
        exact ⟨hoff, hapart, fun _ => hended⟩
      | some txdb =>
        rw [hbegin] at h
        dsimp only at h ⊢
        have hbegun := hapart.txnBegin hbegin
        obtain ⟨-, rfl⟩ := txnBegin_eq_some hbegin
        generalize hwrite : writeNewBlock env o false _ hash _ block = result at h
        obtain ⟨fWritten, n1⟩ := result
        obtain ⟨hkept, hend⟩ := writeNewBlock_apart
          (n := ⟨insertEntry n.chain hash (newBlockIndex n.chain hash nFile nBlockPos block),
            { n.txdb with activeTxn := some n.txdb.stored }⟩)
          hadds herase rfl hpprev (fun hfalse => by cases hfalse) hbegun hwrite
        cases fWritten with
        | false =>
          cases h
          exact ⟨hoff, hkept.txnAbort, fun _ => rfl⟩
        | true =>
          dsimp only at h
          split at h <;>
          · cases h
            exact ⟨hoff, hkept, fun _ => hend rfl⟩

/-! ### Importing a block file -/

theorem PoolApart.commitBatch {ok fSuccess : Bool} {n n' : Node} {batch batch' : CChainImportBatch}
    (hinv : PoolApart pool n batch) (h : batch.commitBatch ok n = (fSuccess, n', batch')) :
    PoolApart pool n' batch' ∧ batch'.fActive = false := by
  unfold CChainImportBatch.commitBatch at h
  by_cases hactive : batch.fActive = true
  · rw [if_neg (not_not.mpr hactive)] at h
    generalize hcommit : n.txdb.txnCommit ok = result at h
    obtain ⟨fCommitted, txdb⟩ := result
    obtain ⟨hkept, hclosed⟩ := hinv.apart.txnCommit hcommit
    cases fCommitted with
    | false =>
      cases h
      exact ⟨⟨hkept, hclosed⟩, rfl⟩
    | true =>
      cases h
      exact ⟨⟨hkept, hclosed⟩, rfl⟩
  · rw [if_pos hactive] at h
    cases h
    exact ⟨hinv, Bool.eq_false_iff.mpr hactive⟩

theorem PoolApart.beginBatch {ok fSuccess : Bool} {n n' : Node} {batch batch' : CChainImportBatch}
    (hinv : PoolApart pool n batch) (h : batch.beginBatch ok n = (fSuccess, n', batch')) :
    PoolApart pool n' batch' ∧ n'.chain = n.chain := by
  unfold CChainImportBatch.beginBatch at h
  split at h
  · cases h
    exact ⟨hinv, rfl⟩
  · split at h
    · cases h
      exact ⟨hinv, rfl⟩
    · next txdb hbegin =>
      cases h
      refine ⟨⟨hinv.apart.txnBegin hbegin, ?_⟩, rfl⟩
      obtain ⟨-, rfl⟩ := txnBegin_eq_some hbegin
      rfl

theorem abortBatch_apart (hapart : Apart pool n.txdb)
    (hended : batch.fActive = false → n.txdb.activeTxn = none) :
    PoolApart pool (batch.abortBatch n).1 (batch.abortBatch n).2 ∧
      (batch.abortBatch n).2.fActive = false := by
  unfold abortBatch
  by_cases hactive : batch.fActive = true
  · rw [if_neg (not_not.mpr hactive)]
    exact ⟨⟨hapart.txnAbort, rfl⟩, rfl⟩
  · rw [if_pos hactive]
    have hoff : batch.fActive = false := Bool.eq_false_iff.mpr hactive
    refine ⟨⟨hapart, ?_⟩, hoff⟩
    rw [hoff]
    exact hended hoff

section

variable (hadds : AddsOnly env.toChainEnv acceptToMemoryPool) (herase : ErasesReported item.outcome)
  (hinv : PoolApart pool n batch)
include hadds herase hinv

theorem processBlock_apart (h : processBlock env item n batch = (fSuccess, n', batch')) :
    batch'.fActive = batch.fActive ∧
      Apart (processBlockPool env acceptToMemoryPool item n batch pool) n'.txdb ∧
      (fSuccess = true ∨ batch.fActive = false → TxnEnded batch.fActive n'.txdb) := by
  unfold processBlock at h
  unfold processBlockPool
  by_cases hchecked : item.fChecked = true
  · rw [if_neg (not_not.mpr hchecked)] at h ⊢
    by_cases hparent : item.block.hashPrevBlock ∈ n.chain.mapBlockIndex
    · rw [if_neg (not_not.mpr hparent)] at h ⊢
      by_cases haccepted : item.fAccepted = true
      · rw [if_neg (not_not.mpr haccepted)] at h ⊢
        exact addToBlockIndex_apart hadds herase hparent hinv h
      · rw [if_pos haccepted] at h ⊢
        cases h
        exact ⟨rfl, hinv.apart, fun _ => hinv.ended⟩
    · rw [if_pos hparent] at h ⊢
      cases h
      exact ⟨rfl, hinv.apart, fun _ => hinv.ended⟩
  · rw [if_pos hchecked] at h ⊢
    cases h
    exact ⟨rfl, hinv.apart, fun _ => hinv.ended⟩

theorem importBlock_apart (h : importBlock env item n batch = (fSuccess, n', batch')) :
    PoolApart (importBlockPool env acceptToMemoryPool item n batch pool) n' batch' ∧
      (fSuccess = false → batch'.fActive = false) := by
  unfold importBlock at h
  unfold importBlockPool
  by_cases hskip : env.blockHash item.block.toCBlockHeader ∈ n.chain.mapBlockIndex ∨
      item.fKnownOrphan = true
  · rw [if_pos hskip] at h ⊢
    cases h
    exact ⟨hinv, fun hfalse => by cases hfalse⟩
  · rw [if_neg hskip] at h ⊢
    have hboundary : ∀ result, (if batch.fActive = true ∧
        ¬ batch.canAppend env.toChainEnv item.fIdle n.chain item.block item.nSize = true then
          batch.commitBatch item.fCommit n else (true, n, batch)) = result →
        PoolApart pool result.2.1 result.2.2 ∧ (result.1 = false → result.2.2.fActive = false) := by
      intro result hresult
      split at hresult
      · obtain ⟨hkept, hoff⟩ := hinv.commitBatch hresult
        exact ⟨hkept, fun _ => hoff⟩
      · cases hresult
        exact ⟨hinv, fun hfalse => by cases hfalse⟩
    generalize hfirst : (if batch.fActive = true ∧
        ¬ batch.canAppend env.toChainEnv item.fIdle n.chain item.block item.nSize = true then
          batch.commitBatch item.fCommit n else (true, n, batch)) = result at h ⊢
    obtain ⟨hinv1, hoff1⟩ := hboundary _ hfirst
    obtain ⟨fCommitted, n1, batch1⟩ := result
    dsimp only at h hinv1 hoff1 ⊢
    cases fCommitted with
    | false =>
      cases h
      exact ⟨hinv1, fun _ => hoff1 rfl⟩
    | true =>
      rw [if_neg (not_not.mpr rfl)] at h ⊢
      have hstart : ∀ result, (if ¬ batch1.fActive = true ∧
          isEligible env.toChainEnv item.fIdle n1.chain item.block = true then
            batch1.beginBatch item.fBegin n1 else (true, n1, batch1)) = result →
          PoolApart pool result.2.1 result.2.2 := by
        intro result hresult
        split at hresult
        · exact (hinv1.beginBatch hresult).1
        · cases hresult
          exact hinv1
      generalize hsecond : (if ¬ batch1.fActive = true ∧
          isEligible env.toChainEnv item.fIdle n1.chain item.block = true then
            batch1.beginBatch item.fBegin n1 else (true, n1, batch1)) = result at h ⊢
      have hinv2 := hstart _ hsecond
      obtain ⟨fBegun, n2, batch2⟩ := result
      generalize hprocess : processBlock env item n2 batch2 = result at h
      obtain ⟨fProcessed, n3, batch3⟩ := result
      obtain ⟨hsame, hkept, hended⟩ := processBlock_apart hadds herase hinv2 hprocess
      cases fProcessed with
      | true =>
        have hend := hended (Or.inl rfl)
        rw [← hsame] at hend
        cases h
        refine ⟨?_, fun hfalse => by cases hfalse⟩
        split
        · exact ⟨hkept, hend⟩
        · exact ⟨hkept, hend⟩
      | false =>
        have habort := abortBatch_apart hkept fun hoff => by
          have hend := hended (Or.inr (hsame ▸ hoff))
          rw [← hsame, hoff] at hend
          exact hend
        have hnode : (batch3.abortBatch n3).1 = n' := congrArg Prod.fst (Prod.mk.inj h).2
        have hbatch : (batch3.abortBatch n3).2 = batch' := congrArg Prod.snd (Prod.mk.inj h).2
        rw [hnode, hbatch] at habort
        exact ⟨habort.1, fun _ => habort.2⟩

end

theorem loadExternalBlockFile_apart (hadds : AddsOnly env.toChainEnv acceptToMemoryPool)
    (fFinalCommit : Bool) {items : List ImportedBlock}
    (herase : ∀ item ∈ items, ErasesReported item.outcome) (hinv : PoolApart pool n batch) :
    PoolApart (loadExternalBlockFilePool env acceptToMemoryPool items n batch pool)
        (loadExternalBlockFile env fFinalCommit items n batch).1
        (loadExternalBlockFile env fFinalCommit items n batch).2 ∧
      (loadExternalBlockFile env fFinalCommit items n batch).2.fActive = false := by
  induction items generalizing n batch pool with
  | nil => exact hinv.commitBatch rfl
  | cons item items ih =>
    unfold loadExternalBlockFile loadExternalBlockFilePool
    generalize hround : importBlock env item n batch = result
    obtain ⟨fSuccess, n', batch'⟩ := result
    obtain ⟨hkept, hoff⟩ := importBlock_apart hadds (herase item mem_cons_self) hinv hround
    cases fSuccess with
    | true => exact ih (fun other hmem => herase other (mem_cons_of_mem _ hmem)) hkept
    | false => exact ⟨hkept, hoff rfl⟩

end BestChain

/-! ## Runs -/

/-- `AcceptToMemoryPool(txdb, false)`. -/
def acceptUnchecked (env : ChainEnv) (A : PoolContext) (txdb : CTxDB) (tx : CTransaction)
    (pool : CTxMemPool) : CTxMemPool :=
  (pool.accept env A txdb tx false).2

/-- The node and its pool, from a start with an empty pool. Each call ends before the next one
begins. -/
inductive PoolChainRun (env : NodeEnv) : Node → CTxMemPool → Prop
  | start {n : Node} (hidle : n.txdb.activeTxn = none) : PoolChainRun env n CTxMemPool.empty
  | acceptFromPeer {n : Node} {pool : CTxMemPool} (A : PoolContext) (tx : CTransaction)
      (h : PoolChainRun env n pool) :
      PoolChainRun env n (pool.accept env.toChainEnv A n.txdb tx true).2
  | acceptWalletTransaction {n : Node} {pool : CTxMemPool} (A : PoolContext) (wtx : CWalletTx)
      (h : PoolChainRun env n pool) :
      PoolChainRun env n (pool.acceptWalletTransaction env.toChainEnv A n.txdb wtx true).2
  | reacceptWalletTransactions {n : Node} {pool : CTxMemPool} (A : PoolContext)
      (mapWallet : List WalletCoins) (h : PoolChainRun env n pool) :
      PoolChainRun env n (pool.reacceptWalletTransactions env.toChainEnv A n.txdb mapWallet)
  | remove {n : Node} {pool : CTxMemPool} (tx : CTransaction) (h : PoolChainRun env n pool) :
      PoolChainRun env n (pool.remove env.txHash tx)
  | clear {n : Node} {pool : CTxMemPool} (h : PoolChainRun env n pool) :
      PoolChainRun env n pool.clear
  | processBlock {n : Node} {pool : CTxMemPool} (A : PoolContext) (item : ImportedBlock)
      (herase : ErasesReported item.outcome) (h : PoolChainRun env n pool) :
      PoolChainRun env (processBlock env item n new).2.1
        (processBlockPool env (acceptUnchecked env.toChainEnv A n.txdb) item n
          new pool)
  | loadExternalBlockFile {n : Node} {pool : CTxMemPool} (A : PoolContext) (fFinalCommit : Bool)
      (items : List ImportedBlock) (herase : ∀ item ∈ items, ErasesReported item.outcome)
      (h : PoolChainRun env n pool) :
      PoolChainRun env (loadExternalBlockFile env fFinalCommit items n new).1
        (loadExternalBlockFilePool env (acceptUnchecked env.toChainEnv A n.txdb) items n
          new pool)

section Idle

variable {env : ChainEnv} {A : PoolContext} {txdb : CTxDB} {pool : CTxMemPool}

def Unindexed (txdb : CTxDB) (pool : CTxMemPool) : Prop :=
  ∀ hash ∈ pool.mapTx, txdb.containsTx hash = false

theorem Apart.unindexed (h : Apart pool txdb) : Unindexed txdb pool := by
  intro hash hmem
  rw [containsTx, (h hash hmem).2]
  rfl

theorem Unindexed.apart (hidle : txdb.activeTxn = none) (h : Unindexed txdb pool) :
    Apart pool txdb := by
  intro hash hmem
  have hnone : txdb.view.tx.lookup hash = none := by
    have hcontains := h hash hmem
    exact not_isSome_iff_eq_none.mp (Bool.eq_false_iff.mp hcontains)
  have hview : txdb.view = txdb.stored := by
    rw [view, hidle]
    rfl
  rw [hview] at hnone ⊢
  exact ⟨hnone, hnone⟩

variable {fCheckInputs : Bool}

theorem Unindexed.accept {tx : CTransaction} (h : Unindexed txdb pool)
    (hown : fCheckInputs = true ∨ txdb.containsTx (env.txHash tx) = false) :
    Unindexed txdb (pool.accept env A txdb tx fCheckInputs).2 := by
  intro hash hmem
  rcases mem_accept hmem with hmem | ⟨heq, hchecked⟩
  · exact h hash hmem
  · rcases hown with hcheck | hown
    · exact Bool.eq_false_iff.mpr fun hcontains => hchecked ⟨hcheck, hcontains⟩
    · exact heq ▸ hown

theorem Unindexed.acceptWalletTransaction {wtx : CWalletTx} (h : Unindexed txdb pool)
    (hown : fCheckInputs = true ∨ txdb.containsTx (env.txHash wtx.toCTransaction) = false) :
    Unindexed txdb (pool.acceptWalletTransaction env A txdb wtx fCheckInputs).2 := by
  refine Unindexed.accept ?_ hown
  generalize wtx.vtxPrev = vtxPrev
  induction vtxPrev generalizing pool with
  | nil => exact h
  | cons tx vtxPrev ih =>
    apply ih
    dsimp only
    split
    · next hmissing => exact h.accept (Or.inr (Bool.eq_false_iff.mpr hmissing.2.2))
    · exact h

theorem Unindexed.reacceptWalletTransaction {wtx : WalletCoins} (h : Unindexed txdb pool) :
    Unindexed txdb (pool.reacceptWalletTransaction env A txdb wtx) := by
  unfold CTxMemPool.reacceptWalletTransaction
  split
  · exact h
  · split
    · exact h
    · next hmissing =>
      split
      · exact h.acceptWalletTransaction (Or.inr (Bool.eq_false_iff.mpr hmissing))
      · exact h

theorem Unindexed.reacceptWalletTransactions (mapWallet : List WalletCoins)
    (h : Unindexed txdb pool) :
    Unindexed txdb (pool.reacceptWalletTransactions env A txdb mapWallet) := by
  induction mapWallet generalizing pool with
  | nil => exact h
  | cons wtx mapWallet ih =>
    exact ih h.reacceptWalletTransaction

end Idle

theorem PoolChainRun.poolApart {env : NodeEnv} {n : Node} (h : PoolChainRun env n pool) :
    PoolApart pool n new := by
  -- Between two calls no transaction is open, so what a call without one adds is apart at once.
  have hidle {n : Node} {pool pool' : CTxMemPool} (hinv : PoolApart pool n new)
      (hunindexed : Unindexed n.txdb pool') : PoolApart pool' n new :=
    ⟨hunindexed.apart hinv.ended, hinv.ended⟩
  induction h with
  | start hidle =>
    exact ⟨fun hash hmem => absurd hmem (Finmap.notMem_empty), hidle⟩
  | acceptFromPeer A tx _ ih =>
    exact hidle ih (ih.apart.unindexed.accept (Or.inl rfl))
  | acceptWalletTransaction A wtx _ ih =>
    exact hidle ih (ih.apart.unindexed.acceptWalletTransaction (Or.inl rfl))
  | reacceptWalletTransactions A mapWallet _ ih =>
    exact hidle ih (ih.apart.unindexed.reacceptWalletTransactions mapWallet)
  | remove tx _ ih =>
    exact ⟨fun hash hmem => ih.apart hash (mem_remove hmem).1, ih.ended⟩
  | clear _ ih =>
    exact ⟨fun hash hmem => absurd hmem (Finmap.notMem_empty), ih.ended⟩
  | processBlock A item herase _ ih =>
    obtain ⟨-, hapart, hended⟩ := processBlock_apart (addsOnly_accept A _) herase ih rfl
    exact ⟨hapart, hended (Or.inr rfl)⟩
  | loadExternalBlockFile A fFinalCommit items herase _ ih =>
    obtain ⟨hinv, hoff⟩ := loadExternalBlockFile_apart (addsOnly_accept A _) fFinalCommit herase ih
    refine ⟨hinv.apart, ?_⟩
    have hend := hinv.ended
    rw [hoff] at hend
    exact hend

/-- No transaction of the pool has an entry in the committed index. -/
theorem pool_chain_disjoint {env : NodeEnv} {n : Node} {pool : CTxMemPool}
    (h : PoolChainRun env n pool) :
    ∀ hash ∈ pool.mapTx, n.txdb.stored.tx.lookup hash = none :=
  fun hash hmem => (h.poolApart.apart hash hmem).1

namespace PoolExample

/-- Block 11 makes the side branch of `SampleFork` the main chain. -/
def forkItem : ImportedBlock where
  block := SampleBatch.block 10 4
  nSize := 200
  nFile := 1
  nBlockPos := 10
  fKnownOrphan := false
  fIdle := true
  fChecked := true
  fAccepted := true
  fBegin := true
  fCommit := true
  outcome := {}

/-- The pool once the transaction with hash 8 was put back. -/
def forkPool : CTxMemPool :=
  CTxMemPool.empty.reacceptWalletTransactions forkEnv.toChainEnv poolContext
    node.txdb [WalletCoins.ofTransaction (spending 90 7)]

def forkedPool : CTxMemPool :=
  processBlockPool forkEnv
    (acceptUnchecked forkEnv.toChainEnv poolContext node.txdb) forkItem
    node new forkPool

end PoolExample

open PoolExample in
theorem pool_chain_disjoint_sampleFork :
    8 ∈ forkedPool.mapTx ∧ ∀ hash ∈ forkedPool.mapTx,
      (processBlock forkEnv forkItem node
        new).2.1.txdb.stored.tx.lookup hash = none := by
  have herase : ErasesReported forkItem.outcome := fun _ _ _ hfalse => by cases hfalse
  exact ⟨by decide, pool_chain_disjoint (.processBlock poolContext forkItem herase
    (.reacceptWalletTransactions poolContext _ (.start rfl)))⟩

end Phoenixcoin.Analysis
