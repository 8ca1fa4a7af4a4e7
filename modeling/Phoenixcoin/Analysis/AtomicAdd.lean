import Phoenixcoin.Analysis.ImportRollback
import Phoenixcoin.Analysis.IndexRecords
import Phoenixcoin.Program.ChainEvents

/-!
# A block is added as a whole or not at all

When `AddToBlockIndex` fails without a batch, no database transaction has been committed, the
chain in memory is the old one and the memory pool has not been touched. Only the best invalid
work, which has a record of its own, may have changed.
-/

set_option autoImplicit false

namespace Phoenixcoin.Analysis

open Lib Program Model ChainState List

variable {env : NodeEnv} {o : ChainOutcome}

/-! ## Pointers -/

/-- The pointers to entries lead to entries of the map. -/
structure PointersValid (s : ChainState) : Prop where
  best : ∀ h, s.pindexBest = some h → h ∈ s.mapBlockIndex
  genesis : ∀ h, s.pindexGenesisBlock = some h → h ∈ s.mapBlockIndex
  next : ∀ a h, s.pnext a = some h → h ∈ s.mapBlockIndex

variable {s : ChainState} {n n' : Node} {txdb txdb' : CTxDB} {hash pindexNew : uint256}
  {r : ChainRecords} {block : CBlock}

/-- In every run of successful calls the pointers are valid. -/
theorem BlockIndexOk.pointersValid (hs : BlockIndexOk env s)
    (hgenesis : ∀ h, s.pindexGenesisBlock = some h → h ∈ s.mapBlockIndex) : PointersValid s := by
  refine ⟨fun h hbest => ?_, hgenesis, fun a h hnext => ?_⟩
  · obtain ⟨-, e, he⟩ := hs.best_eq hbest
    exact Finmap.mem_iff.mpr ⟨e, he⟩
  · obtain ⟨-, hprev⟩ := (hs.linked a h).mp hnext
    obtain ⟨e, he, -⟩ := pprev_eq_some.mp hprev
    exact Finmap.mem_iff.mpr ⟨e, he⟩

variable {h : uint256} {ok fDeferCommit : Bool} {events : List ChainEvent}

theorem PointersValid.ne_fresh (hs : PointersValid s) (hfresh : h ∉ s.mapBlockIndex) :
    s.pindexBest ≠ some h ∧ s.pindexGenesisBlock ≠ some h ∧ ∀ a, s.pnext a ≠ some h :=
  ⟨fun hbest => hfresh (hs.best h hbest), fun hgenesis => hfresh (hs.genesis h hgenesis),
    fun a hnext => hfresh (hs.next a h hnext)⟩

/-! ## Steps that fail -/

/-- Nothing has been committed and the chain in memory is the same, apart from the best invalid
work. -/
structure Uncommitted (n n' : Node) : Prop where
  chain : ∃ bnWork, n'.chain = { n.chain with bnBestInvalidWork := bnWork }
  stored : ∃ bnWork, n'.txdb.stored = { n.txdb.stored with bnBestInvalidWork := bnWork }

theorem Uncommitted.of_stored (h : txdb'.stored = txdb.stored) : Uncommitted ⟨s, txdb⟩ ⟨s, txdb'⟩ :=
  ⟨⟨s.bnBestInvalidWork, rfl⟩, ⟨txdb.stored.bnBestInvalidWork, h⟩⟩

theorem Uncommitted.of_stored_left (h : Uncommitted { n with txdb := txdb } n')
    (hstored : txdb.stored = n.txdb.stored) :
    Uncommitted n n' := by
  obtain ⟨hchain, bnWork, hbest⟩ := h
  exact ⟨hchain, bnWork, by rw [hbest, hstored]⟩

/-- The transaction has been aborted when `InvalidChainFound` writes its record. -/
theorem invalidChainFound_uncommitted (pindexNew : uint256) (n : Node) :
    Uncommitted n (invalidChainFound o pindexNew { n with txdb := n.txdb.txnAbort }) := by
  unfold invalidChainFound CTxDB.writeBestInvalidWork
  dsimp only
  split
  · split
    · exact ⟨⟨_, rfl⟩, ⟨_, rfl⟩⟩
    · exact ⟨⟨_, rfl⟩, ⟨n.txdb.stored.bnBestInvalidWork, rfl⟩⟩
  · exact .of_stored rfl

theorem txnCommit_false_stored (h : txdb.txnCommit ok = (false, txdb')) :
    txdb'.stored = txdb.stored := by
  rw [txnCommit_eq_false h]
  rfl

theorem setGenesisBlock_uncommitted (hactive : n.txdb.activeTxn = some r)
    (h : setGenesisBlock o false n pindexNew hash = (false, n')) : Uncommitted n n' := by
  unfold setGenesisBlock at h
  split at h
  · cases h
    exact .of_stored rfl
  · next txdb hbest =>
    split at h
    · next txdb' hcommit =>
      cases h
      exact .of_stored ((txnCommit_false_stored hcommit).trans
        (stored_writeHashBestChain hbest hactive))
    · cases h

theorem setBestChainInner_uncommitted {pprev : uint256} (hactive : n.txdb.activeTxn = some r)
    (hpprev : n.chain.pprev pindexNew = some pprev)
    (h : setBestChainInner env o false n pindexNew block = (false, n')) : Uncommitted n n' := by
  unfold setBestChainInner at h
  dsimp only at h
  split at h
  · cases h
    exact invalidChainFound_uncommitted pindexNew n
  · next txdb2 hwrite =>
    obtain ⟨txdb1, hattach, hbest⟩ := Option.bind_eq_some_iff.mp hwrite
    split at h
    · next txdb3 hcommit =>
      cases h
      obtain ⟨pindex, -, hwrites⟩ := attachBlock_writes hattach
      obtain ⟨hstored, r1, hactive1⟩ := hwrites.active hactive
      exact .of_stored ((txnCommit_false_stored hcommit).trans
        ((stored_writeHashBestChain hbest hactive1).trans hstored))
    · rw [hpprev] at h
      cases h

/-- Once `Reorganize` has committed, the call succeeds whatever happens to postponed blocks. -/
theorem switchBranch_uncommitted (h : switchBranch env o n pindexNew = (false, n')) :
    Uncommitted n n' := by
  unfold switchBranch at h
  split at h
  · cases h
    exact .of_stored rfl
  · dsimp only at h
    split at h
    · cases h
      exact invalidChainFound_uncommitted pindexNew n
    · cases h

def ParentKnown (env : NodeEnv) (s : ChainState) (block : CBlock) : Prop :=
  block.hashPrevBlock ∈ s.mapBlockIndex ∨
    s.pindexGenesisBlock = none ∧ env.blockHash block.toCBlockHeader = env.hashGenesisBlock

theorem setBestChain_uncommitted (hactive : n.txdb.activeTxn = some r)
    (hparent : (∃ pprev, n.chain.pprev pindexNew = some pprev) ∨
      n.chain.pindexGenesisBlock = none ∧
        env.blockHash block.toCBlockHeader = env.hashGenesisBlock)
    (h : setBestChain env o true false n pindexNew block = (false, n')) : Uncommitted n n' := by
  rw [setBestChain, if_pos rfl] at h
  dsimp only at h
  split at h
  · next n1 hchange =>
    cases h
    unfold changeBestChain at hchange
    dsimp only at hchange
    split at hchange
    · exact setGenesisBlock_uncommitted hactive hchange
    · next hgenesis =>
      obtain ⟨pprev, hpprev⟩ := hparent.resolve_right hgenesis
      split at hchange
      · exact setBestChainInner_uncommitted hactive hpprev hchange
      · exact switchBranch_uncommitted hchange
  · cases h

theorem writeBlockIndex_active {blockHash : CBlockHeader → uint256} {diskindex : CDiskBlockIndex}
    (h : txdb.writeBlockIndex blockHash ok diskindex = some txdb')
    (hactive : txdb.activeTxn = some r) :
    txdb'.stored = txdb.stored ∧ ∃ r', txdb'.activeTxn = some r' := by
  unfold CTxDB.writeBlockIndex at h
  split at h
  · cases h
    rw [CTxDB.update, hactive]
    exact ⟨rfl, _, rfl⟩
  · cases h

theorem writeNewBlock_uncommitted {pindexNew : CBlockIndex} (hactive : n.txdb.activeTxn = some r)
    (hparent : (∃ pprev, n.chain.pprev hash = some pprev) ∨
      n.chain.pindexGenesisBlock = none ∧
        env.blockHash block.toCBlockHeader = env.hashGenesisBlock)
    (h : writeNewBlock env o false n hash pindexNew block = (false, n')) : Uncommitted n n' := by
  unfold writeNewBlock at h
  split at h
  · cases h
    exact .of_stored rfl
  · next txdb hwrite =>
    obtain ⟨hstored, r1, hactive1⟩ := writeBlockIndex_active hwrite hactive
    dsimp only at h
    split at h
    · have hset : Uncommitted ⟨n.chain, txdb⟩ n' :=
        setBestChain_uncommitted hactive1 hparent h
      exact hset.of_stored_left hstored
    · obtain ⟨hcommit, rfl⟩ := Prod.mk.inj h
      have hcommitted : txdb.txnCommit (o.txnCommit hash) = (false, _) := Prod.ext hcommit rfl
      exact .of_stored ((txnCommit_false_stored hcommitted).trans hstored)

/-! ## The entry is removed again -/

theorem newBlockIndex_pnext (s : ChainState) (hash : uint256) (nFile nBlockPos : ℕ)
    (block : CBlock) : (newBlockIndex s hash nFile nBlockPos block).pnext = none := by
  unfold newBlockIndex
  dsimp only
  split <;> rfl

theorem newBlockIndex_pprev_of_mem {nFile nBlockPos : ℕ} (h : block.hashPrevBlock ∈ s.mapBlockIndex)
    :
    (newBlockIndex s hash nFile nBlockPos block).pprev = some block.hashPrevBlock := by
  unfold newBlockIndex
  dsimp only
  have hmem : block.hashPrevBlock ∈
      s.mapBlockIndex.insert hash (CBlockIndex.ofBlock hash nFile nBlockPos block) :=
    Finmap.mem_insert.mpr (.inr h)
  obtain ⟨pprev, hpprev⟩ := Finmap.mem_iff.mp hmem
  rw [hpprev]

/-- The guard of `RollbackBlockIndexEntry` lets a new entry go, and nothing points to it. -/
theorem rollbackBlockIndexEntry_insertEntry {e : CBlockIndex} (hs : PointersValid s)
    (hfresh : h ∉ s.mapBlockIndex) (hnext : e.pnext = none) :
    ∃ pindex, rollbackBlockIndexEntry (insertEntry s h e) h =
      { s with pblockindexFBBHLast := pindex } := by
  obtain ⟨hbest, hgenesis, hlinked⟩ := hs.ne_fresh hfresh
  have hnone : s.entry h = none := Finmap.lookup_eq_none.mpr hfresh
  have hpnext : (insertEntry s h e).pnext = s.pnext := pnext_insertEntry hnone hnext
  have hguard : ¬ ((insertEntry s h e).pindexBest = some h ∨
      (insertEntry s h e).pindexGenesisBlock = some h ∨ (insertEntry s h e).pnext h ≠ none) := by
    rintro (heq | heq | heq)
    · exact hbest heq
    · exact hgenesis heq
    · rw [hpnext, ChainState.pnext, hnone] at heq
      exact heq rfl
  have herase : (s.mapBlockIndex.insert h e).erase h = s.mapBlockIndex :=
    Table.erase_insert_of_lookup_none hnone
  rw [rollbackBlockIndexEntry, if_neg hguard]
  refine ⟨if s.pblockindexFBBHLast = some h then none else s.pblockindexFBBHLast, ?_⟩
  cases (insertEntry s h e).pprev h with
  | none =>
    dsimp only [insertEntry]
    rw [herase]
  | some p =>
    dsimp only
    rw [hpnext, if_neg (hlinked p)]
    dsimp only [insertEntry]
    congr

/-! ## The memory pool -/

def OnlySync (events : List ChainEvent) : Prop :=
  ∀ event ∈ events, ∃ block, event = .syncWithWallets block

theorem OnlySync.nil : OnlySync [] := fun _ h => absurd h not_mem_nil

theorem OnlySync.append {events' : List ChainEvent} (h : OnlySync events) (h' : OnlySync events') :
    OnlySync (events ++ events') := by
  intro event hevent
  rcases mem_append.mp hevent with hevent | hevent
  · exact h event hevent
  · exact h' event hevent

theorem OnlySync.foldl_updatePool (h : OnlySync events) (txHash : CTransaction → uint256)
    (acceptToMemoryPool : CTransaction → CTxMemPool → CTxMemPool) (pool : CTxMemPool) :
    events.foldl (ChainEvent.updatePool txHash acceptToMemoryPool) pool = pool := by
  induction events with
  | nil => rfl
  | cons event events ih =>
    obtain ⟨block, rfl⟩ := h event mem_cons_self
    exact ih fun event hevent => h event (mem_cons_of_mem _ hevent)

theorem connectEvents_onlySync (s : ChainState) (txdb : CTxDB) (vConnect : List uint256) :
    OnlySync (connectEvents env o s txdb vConnect) := by
  induction vConnect generalizing txdb with
  | nil => exact .nil
  | cons hash rest ih =>
    rw [connectEvents]
    split
    · next block txdb' hread hconnect =>
      intro event hevent
      rcases mem_cons.mp hevent with rfl | hevent
      · exact ⟨block, rfl⟩
      · exact ih txdb' event hevent
    · exact .nil

/-- `Reorganize` changes the pool only after its commit. -/
theorem reorganizeEvents_onlySync (h : reorganize env o n pindexNew = none) :
    OnlySync (reorganizeEvents env o n pindexNew) := by
  unfold reorganizeEvents
  dsimp only
  split
  · exact .nil
  · split
    · exact .nil
    · rw [h]
      exact (connectEvents_onlySync _ _ _).append .nil

theorem setBestChainInnerEvents_onlySync
    (h : (setBestChainInner env o fDeferCommit n pindexNew block).1 = false) :
    OnlySync (setBestChainInnerEvents env o fDeferCommit n pindexNew block) := by
  rw [setBestChainInnerEvents, h, if_neg Bool.false_ne_true]
  split
  · intro event hevent
    simp only [append_nil, mem_singleton] at hevent
    exact ⟨block, hevent⟩
  · exact .nil

theorem switchBranchEvents_onlySync (h : (switchBranch env o n pindexNew).1 = false) :
    OnlySync (switchBranchEvents env o n pindexNew) := by
  unfold switchBranchEvents
  unfold switchBranch at h
  split
  · exact .nil
  · next pindexBest hbest =>
    rw [hbest] at h
    dsimp only at h ⊢
    split
    · next hnone => exact (reorganizeEvents_onlySync hnone).append .nil
    · next n1 hsome =>
      rw [hsome] at h
      cases h

theorem setBestChainEvents_onlySync
    (h : (setBestChain env o true fDeferCommit n pindexNew block).1 = false) :
    OnlySync (setBestChainEvents env o true fDeferCommit n pindexNew block) := by
  unfold setBestChain at h
  unfold setBestChainEvents changeBestChainEvents
  rw [if_pos rfl] at h ⊢
  dsimp only at h ⊢
  split at h
  · next n1 hchange =>
    unfold changeBestChain at hchange
    split
    · exact .nil
    · next hgenesis =>
      rw [if_neg hgenesis] at hchange
      split
      · next hprev =>
        rw [if_pos hprev] at hchange
        exact setBestChainInnerEvents_onlySync (congrArg Prod.fst hchange)
      · next hprev =>
        rw [if_neg hprev] at hchange
        split
        · exact .nil
        · next hdefer =>
          rw [if_neg hdefer] at hchange
          exact switchBranchEvents_onlySync (congrArg Prod.fst hchange)
  · cases h

theorem writeNewBlockEvents_onlySync {fBatch : Bool} {pindexNew : CBlockIndex}
    (h : (writeNewBlock env o fBatch n hash pindexNew block).1 = false) :
    OnlySync (writeNewBlockEvents env o fBatch n hash pindexNew block) := by
  unfold writeNewBlockEvents
  unfold writeNewBlock at h
  split
  · exact .nil
  · next txdb hwrite =>
    rw [hwrite] at h
    dsimp only at h
    split
    · next hwork =>
      rw [if_pos hwork] at h
      exact setBestChainEvents_onlySync h
    · exact .nil

/-! ## The call -/

theorem addAlone_uncommitted {pindexNew : CBlockIndex} (hvalid : PointersValid n.chain)
    (hfresh : hash ∉ n.chain.mapBlockIndex) (hnext : pindexNew.pnext = none)
    (hparent : (∃ pprev, pindexNew.pprev = some pprev) ∨ n.chain.pindexGenesisBlock = none ∧
      env.blockHash block.toCBlockHeader = env.hashGenesisBlock) (hclosed : n.txdb.activeTxn = none)
    (h : addAlone env o ⟨insertEntry n.chain hash pindexNew, n.txdb⟩ hash pindexNew block =
      (false, n')) :
    (∃ bnWork pindex, n'.chain =
        { n.chain with bnBestInvalidWork := bnWork, pblockindexFBBHLast := pindex }) ∧
      (∃ bnWork, n'.txdb.stored = { n.txdb.stored with bnBestInvalidWork := bnWork }) ∧
      n'.txdb.activeTxn = none := by
  unfold addAlone at h
  split at h
  · cases h
    obtain ⟨pindex, hchain⟩ := rollbackBlockIndexEntry_insertEntry hvalid hfresh hnext
    exact ⟨⟨_, pindex, hchain⟩, ⟨n.txdb.stored.bnBestInvalidWork, rfl⟩, hclosed⟩
  · next txdb hbegin =>
    obtain ⟨-, rfl⟩ := txnBegin_eq_some hbegin
    split at h
    · next n1 hwrite =>
      cases h
      have hpprev : (∃ pprev, (insertEntry n.chain hash pindexNew).pprev hash = some pprev) ∨
          n.chain.pindexGenesisBlock = none ∧
            env.blockHash block.toCBlockHeader = env.hashGenesisBlock := by
        rwa [pprev_insertEntry_self]
      obtain ⟨⟨bnWork, hchain⟩, hstored⟩ := writeNewBlock_uncommitted rfl hpprev hwrite
      have hvalid' : PointersValid { n.chain with bnBestInvalidWork := bnWork } :=
        ⟨hvalid.best, hvalid.genesis, hvalid.next⟩
      obtain ⟨pindex, hback⟩ := rollbackBlockIndexEntry_insertEntry hvalid' hfresh hnext
      refine ⟨⟨bnWork, pindex, ?_⟩, hstored, rfl⟩
      rw [hchain]
      exact hback
    · cases h

theorem addAlone_eq_false {pindexNew : CBlockIndex} (hbegin : txdb.txnBegin o.txnBegin = some txdb')
    (h : addAlone env o ⟨s, txdb⟩ hash pindexNew block = (false, n')) :
    (writeNewBlock env o false ⟨s, txdb'⟩ hash pindexNew block).1 = false := by
  rw [addAlone, hbegin] at h
  dsimp only at h
  split at h
  · next heq => rw [heq]
  · cases h

/-- **Adding a block is atomic.** When `AddToBlockIndex` fails, whichever of its operations
failed, the chain in memory, the records and the memory pool are those from before the call,
apart from the best invalid work. -/
theorem addToBlockIndex_atomic {n : Node} {batch : CChainImportBatch} {nFile nBlockPos : ℕ}
    {block : CBlock} (hvalid : PointersValid n.chain) (hclosed : n.txdb.activeTxn = none)
    (hparent : ParentKnown env n.chain block) (hbatch : batch.fActive = false)
    (hfail : (addToBlockIndex env o nFile nBlockPos block n batch).1 = false) :
    (∃ bnWork pindex, (addToBlockIndex env o nFile nBlockPos block n batch).2.1.chain =
        { n.chain with bnBestInvalidWork := bnWork, pblockindexFBBHLast := pindex }) ∧
      (∃ bnWork, (addToBlockIndex env o nFile nBlockPos block n batch).2.1.txdb.stored =
        { n.txdb.stored with bnBestInvalidWork := bnWork }) ∧
      (addToBlockIndex env o nFile nBlockPos block n batch).2.1.txdb.activeTxn = none ∧
      ∀ acceptToMemoryPool pool,
        addToBlockIndexPool env o acceptToMemoryPool nFile nBlockPos block n batch pool = pool := by
  unfold addToBlockIndexPool addToBlockIndexEvents
  unfold addToBlockIndex at hfail ⊢
  generalize hhash : env.blockHash block.toCBlockHeader = hash at hfail ⊢
  dsimp only at hfail ⊢
  split
  · exact ⟨⟨_, _, rfl⟩, ⟨_, rfl⟩, hclosed, fun _ _ => rfl⟩
  · next hfresh =>
    have hidle : ¬ batch.fActive = true := Bool.eq_false_iff.mp hbatch
    rw [if_neg hfresh, if_neg hidle] at hfail
    rw [if_neg hidle]
    have hpprev : (∃ pprev, (newBlockIndex n.chain hash nFile nBlockPos block).pprev = some pprev) ∨
        n.chain.pindexGenesisBlock = none ∧
          env.blockHash block.toCBlockHeader = env.hashGenesisBlock := by
      refine hparent.imp_left fun hknown => ⟨_, newBlockIndex_pprev_of_mem hknown⟩
    have hadd : addAlone env o ⟨insertEntry n.chain hash _, n.txdb⟩ hash
        (newBlockIndex n.chain hash nFile nBlockPos block) block = (false, _) := Prod.ext hfail rfl
    obtain ⟨hchain, hstored, hclosed'⟩ := addAlone_uncommitted hvalid hfresh
      (newBlockIndex_pnext _ _ _ _ _) hpprev hclosed hadd
    refine ⟨hchain, hstored, hclosed', fun acceptToMemoryPool pool => ?_⟩
    rw [if_neg hidle]
    apply OnlySync.foldl_updatePool
    split
    · exact .nil
    · next txdb hbegin => exact writeNewBlockEvents_onlySync (addAlone_eq_false hbegin hadd)

namespace SampleFork

/-- Block 11 on top of the side branch has the most work, and block 3 cannot be read. -/
def unreadableBranch : ChainOutcome := { db := fun hash op => !(hash == 3 && op == .readBlock) }

end SampleFork

open SampleFork

theorem addToBlockIndex_atomic_sampleFork :
    (∃ bnWork pindex, (addToBlockIndex forkEnv unreadableBranch 1 10
        (SampleBatch.block 10 4) node CChainImportBatch.new).2.1.chain =
      { chain with bnBestInvalidWork := bnWork, pblockindexFBBHLast := pindex }) ∧
    (addToBlockIndex forkEnv unreadableBranch 1 10
      (SampleBatch.block 10 4) node CChainImportBatch.new).2.1.txdb.activeTxn = none := by
  have hvalid : PointersValid node.chain :=
    blockIndexOk.pointersValid fun h hgenesis => by
      cases hgenesis
      decide
  obtain ⟨hchain, -, hclosed, -⟩ := @addToBlockIndex_atomic forkEnv
    unreadableBranch node CChainImportBatch.new 1 10
    (SampleBatch.block 10 4) hvalid rfl (.inl (by decide)) rfl (by decide)
  exact ⟨hchain, hclosed⟩

end Phoenixcoin.Analysis
