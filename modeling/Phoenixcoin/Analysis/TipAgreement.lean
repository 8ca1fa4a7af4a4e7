import Phoenixcoin.Analysis.ChainMoves

/-!
# Agreement on the tip

After a successful `SetBestChain` the memory, the database and the forward links name the same
best block, provided that every postponed block was connected. The loop over these blocks
stops at the first failure, but the tip in memory is moved to the last of them all the same.
-/

set_option autoImplicit false

namespace Phoenixcoin.Analysis

open Lib Program Model ChainState

/-! ## The property -/

/-- The best chain of the last commit. A deferred commit is left to the import batch, which
commits the records of the open transaction. -/
def committedBest (fDeferCommit : Bool) (txdb : CTxDB) : Option uint256 :=
  if fDeferCommit then txdb.view.hashBestChain else txdb.stored.hashBestChain

/-- Memory and database name the same tip, and the forward links lead to it. -/
structure TipAgrees (fDeferCommit : Bool) (n : Node) : Prop where
  best : n.chain.pindexBest = some n.chain.hashBestChain
  database : committedBest fDeferCommit n.txdb = some n.chain.hashBestChain
  reached : ∃ g, n.chain.pindexGenesisBlock = some g ∧
    Relation.ReflTransGen (fun a b => n.chain.pnext a = some b) g n.chain.hashBestChain
  last : n.chain.pnext n.chain.hashBestChain = none

section Postponed

variable (env : NodeEnv) (o : ChainOutcome)

/-- A postponed block can be read, connects in a transaction of its own and is committed. -/
def attachPostponed (n : Node) (hash : uint256) : Option Node := do
  let pindex ← n.chain.entry hash
  let block ← readBlockFromDisk env.toChainEnv (o.db hash .readBlock) hash pindex
  let txdb ← n.txdb.txnBegin (o.txnBeginSecondary hash)
  let txdb ← attachBlock env o n.chain txdb hash block
  let txdb ← txdb.writeHashBestChain (o.writeHashBestChain hash) hash
  let (fCommitted, txdb) := txdb.txnCommit (o.txnCommit hash)
  guard (fCommitted = true)
  return ⟨(n.chain.link hash).addUpdates (o.nPoolUpdates hash), txdb⟩

/-- The blocks that the call postpones, and the block that it reorganises to. -/
def postponed (s : ChainState) (pindexBest pindexNew : uint256) : List uint256 × uint256 :=
  s.postpone (s.bnChainWork pindexBest) s.size pindexNew

def PostponedConnect (fTxnActive : Bool) (n : Node) (pindexNew : uint256) : Prop :=
  ∀ txdb pindexBest n', (if fTxnActive then some n.txdb else n.txdb.txnBegin o.txnBegin) =
      some txdb →
    n.chain.pindexBest = some pindexBest →
    reorganize env o { n with txdb := txdb } (postponed n.chain pindexBest pindexNew).2 =
      some n' →
    ((postponed n.chain pindexBest pindexNew).1.reverse.foldlM (attachPostponed env o) n').isSome

end Postponed

variable {env : NodeEnv} {o : ChainOutcome}

/-! ## The postponed blocks -/

variable {hash h : uint256} {n : Node} {txdb txdb' : CTxDB} {s : ChainState} {fDeferCommit : Bool}

theorem readBlockFromDisk_hash {ok : Bool} {pindex : CBlockIndex} {block : CBlock} {env : ChainEnv}
    (h : readBlockFromDisk env ok hash pindex = some block) :
    env.blockHash block.toCBlockHeader = hash := by
  unfold readBlockFromDisk at h
  split at h
  · exact of_decide_eq_true (Option.filter_eq_some_iff.mp h).2
  · cases h

theorem stored_invalidChainFound (pindexNew : uint256) (hactive : n.txdb.activeTxn = none) :
    (invalidChainFound o pindexNew n).txdb.stored.hashBestChain =
      n.txdb.stored.hashBestChain := by
  unfold invalidChainFound CTxDB.writeBestInvalidWork
  dsimp only
  split
  · split
    · rw [Option.getD_some, CTxDB.update, hactive]
    · rfl
  · rfl

/-- A transaction that has just begun sees the stored records. -/
theorem txnBegin_eq_some {ok : Bool} (h : txdb.txnBegin ok = some txdb') :
    txdb.activeTxn = none ∧ txdb' = { txdb with activeTxn := some txdb.stored } := by
  unfold CTxDB.txnBegin at h
  split at h
  · cases h
  · next hactive =>
    split at h
    · cases h
      exact ⟨hactive, rfl⟩
    · cases h

theorem attachBlock_writes {block : CBlock} (h : attachBlock env o s txdb hash block = some txdb') :
    ∃ pindex, s.entry hash = some pindex ∧
      WritesIndex (linkRecord env.toChainEnv (s.pprevs pindex) (pindex.phashBlock.getD 0))
        txdb txdb' := by
  obtain ⟨pindex, hpindex, hconnect⟩ := Option.bind_eq_some_iff.mp h
  exact ⟨pindex, hpindex, connectBlock_writes hconnect⟩

theorem connectSecondary_cons {pindex pprev : uint256} (rest : List uint256)
    (hpprev : n.chain.pprev pindex = some pprev) :
    (∃ n', attachPostponed env o n pindex = some n' ∧
      connectSecondary env o (pindex :: rest) n = connectSecondary env o rest n') ∨
    (attachPostponed env o n pindex = none ∧
      (connectSecondary env o (pindex :: rest) n).txdb.stored.hashBestChain =
        n.txdb.stored.hashBestChain) := by
  rw [attachPostponed, connectSecondary]
  cases hentry : n.chain.entry pindex with
  | none => exact .inr ⟨rfl, rfl⟩
  | some e =>
    simp only [Option.bind_eq_bind, Option.bind_some]
    cases hread : readBlockFromDisk env.toChainEnv (o.db pindex .readBlock) pindex e with
    | none => exact .inr ⟨rfl, rfl⟩
    | some block =>
      cases hbegin : n.txdb.txnBegin (o.txnBeginSecondary pindex) with
      | none => exact .inr ⟨rfl, rfl⟩
      | some txdb =>
        obtain ⟨-, rfl⟩ := txnBegin_eq_some hbegin
        simp only [Option.bind_some, setBestChainInner, readBlockFromDisk_hash hread]
        cases hattach : attachBlock env o n.chain _ pindex block with
        | none => exact .inr ⟨rfl, stored_invalidChainFound pindex rfl⟩
        | some txdb1 =>
          obtain ⟨pe, -, hwrites⟩ := attachBlock_writes hattach
          obtain ⟨hstored, r, hactive⟩ := hwrites.active rfl
          simp only [Option.bind_some]
          cases hbest : txdb1.writeHashBestChain (o.writeHashBestChain pindex) pindex with
          | none => exact .inr ⟨rfl, stored_invalidChainFound pindex rfl⟩
          | some txdb2 =>
            simp only [Option.bind_some, Bool.false_eq_true, if_false]
            cases hcommit : txdb2.txnCommit (o.txnCommit pindex) with
            | mk fCommitted txdb3 =>
              cases fCommitted with
              | true => simp [hpprev, guard]
              | false =>
                refine .inr ⟨by simp [guard], ?_⟩
                rw [txnCommit_eq_false hcommit]
                exact congrArg _ ((stored_writeHashBestChain hbest hactive).trans hstored)

/-- What holds between two rounds of the loop. -/
structure AtTip (s : ChainState) (n : Node) (tip : uint256) : Prop where
  moved : TipMoved s n.chain tip
  database : n.txdb.stored.hashBestChain = some tip
  idle : n.txdb.activeTxn = none

theorem attachPostponed_atTip (hs : TreeOk s) {n' : Node} {tip : uint256} (hn : AtTip s n tip)
    (hp : s.pprev hash = some tip) (h : attachPostponed env o n hash = some n') :
    AtTip s n' hash := by
  simp only [attachPostponed, Option.bind_eq_bind, Option.bind_eq_some_iff] at h
  obtain ⟨pindex, -, block, -, txdb1, hbegin, txdb2, hattach, txdb3, hbest, hcommit⟩ := h
  generalize hcommitted : txdb3.txnCommit (o.txnCommit hash) = result at hcommit
  obtain ⟨fCommitted, txdb4⟩ := result
  simp only [exists_guard_eq_some, Option.pure_def, Option.some.injEq] at hcommit
  obtain ⟨rfl, rfl⟩ := hcommit
  obtain ⟨-, -, rfl⟩ := txnCommit_eq_true hcommitted
  have hmove : TipMoved n.chain (n.chain.link hash) hash :=
    tipMoved_link (hs.of_sameTree hn.moved.tree) hn.moved.linked (hn.moved.tree.pprev ▸ hp)
  refine ⟨(hn.moved.trans hmove).addUpdates _, ?_, rfl⟩
  rw [(view_writeHashBestChain hbest).2]

theorem connectSecondary_atTip {s : ChainState} (hs : TreeOk s) {l : List uint256} {n : Node}
    {tip last : uint256} (hn : AtTip s n tip) (hpath : Descent s.pprev tip l last) :
    if (l.foldlM (attachPostponed env o) n).isSome then
      AtTip s (connectSecondary env o l n) last
    else (connectSecondary env o l n).txdb.stored.hashBestChain ≠ some last := by
  induction l generalizing n tip with
  | nil =>
    cases hpath
    exact hn
  | cons hash rest ih =>
    cases hpath with
    | cons hp hrest =>
      have hp' : n.chain.pprev hash = some tip := hn.moved.tree.pprev ▸ hp
      rcases connectSecondary_cons rest hp' with ⟨n', hattach, hrun⟩ | ⟨hattach, hstored⟩
      · rw [hrun, List.foldlM_cons, hattach]
        exact ih (attachPostponed_atTip hs hn hp hattach) hrest
      · rw [List.foldlM_cons, hattach, hstored, hn.database]
        rintro heq
        cases heq
        exact hrest.above.not_parent hs.graded hp .refl

/-! ## The three branches -/

theorem BlockIndexOk.rooted_of_fork (hs : BlockIndexOk env s) {t f r : uint256}
    (ht : s.pindexBest = some t) (htf : Above s.pprev t f) (hhf : Above s.pprev h f)
    (hr : Above s.pprev h r) (hroot : s.pprev r = none) :
    s.pindexGenesisBlock = some r := by
  rcases hr.total hhf with hrf | hfr
  · rcases hrf.cases with rfl | ⟨p, hp, -⟩
    · exact hs.rooted t r ht htf hroot
    · cases hroot.symm.trans hp
  · exact hs.rooted t r ht (htf.trans hfr) hroot

/-- The assignments at the end leave a well-formed index. -/
theorem blockIndexOk_newBestBlock {e : CBlockIndex} (hs : BlockIndexOk env s)
    (hentry : s.entry h = some e) (htree : SameTree s n.chain)
    (hlinked : Linked n.chain.pprev n.chain.pnext (some h))
    (hrooted : ∀ r, Above s.pprev h r → s.pprev r = none → n.chain.pindexGenesisBlock = some r) :
    BlockIndexOk env (newBestBlock o h h n).chain := by
  obtain ⟨next, hentry'⟩ := htree.entry hentry
  refine ⟨hs.tree.of_sameTree htree, (congrFun htree.pprev _).trans hs.genesis, ?_, hlinked, ?_⟩
  · exact (congrArg (Option.map fun _ => h) hentry').symm
  · intro t r ht hr hroot
    cases ht
    refine hrooted r ?_ ?_
    · rw [← htree.pprev]
      exact hr
    · rw [← htree.pprev]
      exact hroot

theorem BlockIndexOk.pindexBest_none (hs : BlockIndexOk env s)
    (hgenesis : s.pindexGenesisBlock = none) : s.pindexBest = none := by
  cases hbest : s.pindexBest with
  | none => rfl
  | some t =>
    obtain ⟨-, e, he⟩ := hs.best_eq hbest
    obtain ⟨r, hr, hroot⟩ := hs.tree.exists_root he
    cases hgenesis.symm.trans (hs.rooted t r hbest hr hroot)

theorem reorganize_atTip {n n' : Node} {h : uint256} (hs : BlockIndexOk env n.chain)
    (hreorganize : reorganize env o n h = some n') :
    AtTip n.chain n' h ∧ ∃ t f, n.chain.pindexBest = some t ∧ Above n.chain.pprev t f ∧
      Above n.chain.pprev h f := by
  obtain ⟨t, f, vDisconnect, vConnect, ht, hdisconnect, hconnect, hdb, hchain⟩ :=
    reorganize_cases hreorganize
  have hunlink := tipMoved_unlinkBranch hs.tree (ht ▸ hs.linked) hdisconnect
  have hlink := tipMoved_linkBranch (hs.tree.of_sameTree hunlink.tree) hunlink.linked
    (hunlink.tree.pprev.symm ▸ hconnect)
  obtain ⟨txdb1, txdb2, -, -, hstored⟩ := reorganizeDb_cases hdb
  refine ⟨⟨?_, ?_, ?_⟩, t, f, ht, hdisconnect.above, hconnect.above⟩
  · rw [hchain]
    exact (hunlink.trans hlink).addUpdates _
  · rw [hstored]
  · rw [hstored]

/-- The property at the end of a call whose branch left a well-formed index. -/
theorem tipAgrees_of_ok (hs : BlockIndexOk env n.chain)
    (hbest : n.chain.pindexBest = some n.chain.hashBestChain)
    (hdb : committedBest fDeferCommit n.txdb = some n.chain.hashBestChain) :
    TipAgrees fDeferCommit n := by
  obtain ⟨-, e, he⟩ := hs.best_eq hbest
  obtain ⟨r, hr, hroot⟩ := hs.tree.exists_root he
  have hlinked := hbest ▸ hs.linked
  exact ⟨hbest, hdb, ⟨r, hs.rooted _ r hbest hr hroot, hlinked.reaches hr⟩,
    hlinked.tip_next hs.tree.graded⟩

theorem committedBest_of_committed (hcommit : Committed fDeferCommit txdb txdb')
    (hview : txdb.view.hashBestChain = some h) :
    committedBest fDeferCommit txdb' = some h := by
  unfold committedBest
  unfold Committed at hcommit
  split
  · next hdefer =>
    rw [if_pos hdefer] at hcommit
    rw [hcommit, hview]
  · next hdefer =>
    rw [if_neg hdefer] at hcommit
    rw [hcommit.2, hview]

structure EntryOf (env : NodeEnv) (s : ChainState) (h : uint256) (block : CBlock) : Prop where
  hash : env.blockHash block.toCBlockHeader = h
  entry : ∃ e, s.entry h = some e
  prev : ∀ p, s.pprev h = some p → block.hashPrevBlock = p

/-- A successful call either connects every postponed block and leaves a well-formed index, or
the database has another best chain than the memory. -/
theorem setBestChain_ok {fTxnActive : Bool} {n' : Node} {block : CBlock}
    (hs : BlockIndexOk env n.chain) (hblock : EntryOf env n.chain h block)
    (hret : setBestChain env o fTxnActive fDeferCommit n h block = (true, n')) :
    n'.chain.hashBestChain = h ∧ n'.chain.pindexBest = some h ∧
      ((PostponedConnect env o fTxnActive n h ∧ BlockIndexOk env n'.chain ∧
          committedBest fDeferCommit n'.txdb = some h) ∨ (¬ PostponedConnect env o fTxnActive n h ∧
          committedBest fDeferCommit n'.txdb ≠ some h)) := by
  obtain ⟨hhash, ⟨e, hentry⟩, hprev⟩ := hblock
  obtain ⟨txdb, n1, hbegin, hstep, rfl⟩ := setBestChain_step hret
  rw [hhash]
  refine ⟨rfl, rfl, ?_⟩
  cases hstep with
  | genesis txdb' txdb'' hfirst hgenesis hview hcommit =>
    rw [hhash] at hview hgenesis
    have hnone := hs.pindexBest_none hfirst
    have hroot : n.chain.pprev h = none := hgenesis ▸ hs.genesis
    refine .inl ⟨fun txdb t n1 _ ht => ?_, ?_, ?_⟩
    · cases hnone.symm.trans ht
    · refine blockIndexOk_newBestBlock hs hentry (fun _ => rfl)
        (Linked.root (hnone ▸ hs.linked) hroot) fun r hr _ => ?_
      rcases hr.cases with rfl | ⟨p, hp, -⟩
      · rfl
      · cases hroot.symm.trans hp
    · exact committedBest_of_committed hcommit (by rw [hview])
  | extend p txdb1 txdb2 txdb3 hbestPrev hp hattach hview hcommit =>
    rw [hhash] at hview
    have hpbest : p = n.chain.hashBestChain := (hprev p hp).symm.trans hbestPrev
    obtain ⟨pe, hpe⟩ := hs.tree.pprev_entry hp
    have hbest : n.chain.pindexBest = some p := by
      rw [hs.best, ← hpbest, hpe, Option.map_some]
    have hmove : TipMoved n.chain (n.chain.link h) h :=
      tipMoved_link hs.tree (hbest ▸ hs.linked) hp
    refine .inl ⟨fun txdb t n1 _ ht => ?_, ?_, ?_⟩
    · cases hbest.symm.trans ht
      have hnil : postponed n.chain p h = ([], h) := by
        refine postpone_eq_nil fun p' hp' => ?_
        cases hp.symm.trans hp'
        exact le_rfl
      intro _
      rw [hnil]
      rfl
    · refine blockIndexOk_newBestBlock hs hentry hmove.tree hmove.linked fun r hr hroot => ?_
      exact hmove.genesis.trans (hs.rooted_of_fork hbest .refl (.head hp .refl) hr hroot)
    · exact committedBest_of_committed hcommit (by rw [hview])
  | switch t n1 hdefer ht hreorganize =>
    have hpath : Path n.chain.pprev h (postponed n.chain t h).1 (postponed n.chain t h).2 :=
      postpone_path _ _ _
    obtain ⟨htip, t', f, ht', htf, hif⟩ :=
      @reorganize_atTip env o { n with txdb := txdb } n1 _ hs hreorganize
    have hend := @connectSecondary_atTip env o _ hs.tree _ _ _ _ htip hpath.reverse
    have hcondition : PostponedConnect env o fTxnActive n h ↔
        ((postponed n.chain t h).1.reverse.foldlM (attachPostponed env o) n1).isSome = true := by
      constructor
      · exact fun hall => hall txdb t n1 hbegin ht hreorganize
      · intro hsome txdb' t'' n1' hbegin' ht'' hreorganize'
        cases hbegin.symm.trans hbegin'
        cases ht.symm.trans ht''
        cases hreorganize.symm.trans hreorganize'
        exact hsome
    rw [hcondition, hdefer]
    split at hend
    · next hsome =>
      refine .inl ⟨hsome, ?_, hend.database⟩
      refine blockIndexOk_newBestBlock hs hentry hend.moved.tree hend.moved.linked
        fun r hr hroot => ?_
      exact hend.moved.genesis.trans (hs.rooted_of_fork ht' htf (hpath.above.trans hif) hr hroot)
    · next hfail => exact .inr ⟨hfail, hend⟩

/-- **Tip agreement.** After a call that returns true, memory, database and forward links agree
exactly when every postponed block was connected. -/
theorem setBestChain_tipAgrees_iff {fTxnActive fDeferCommit : Bool} {n n' : Node} {h : uint256}
    {block : CBlock} (hs : BlockIndexOk env n.chain) (hblock : EntryOf env n.chain h block)
    (hret : setBestChain env o fTxnActive fDeferCommit n h block = (true, n')) :
    TipAgrees fDeferCommit n' ↔ PostponedConnect env o fTxnActive n h := by
  obtain ⟨hhash, hbest, hend⟩ := setBestChain_ok hs hblock hret
  rcases hend with ⟨hall, hok, hdb⟩ | ⟨hfail, hdb⟩
  · refine iff_of_true (tipAgrees_of_ok hok ?_ ?_) hall
    · rw [hbest, hhash]
    · rw [hdb, hhash]
  · refine iff_of_false (fun hagree => hdb ?_) hfail
    rw [hagree.database, hhash]

/-! ## A postponed block that cannot be read -/

namespace SampleFork

/-- The block with number `i` has hash `i + 1` and a coinbase of its own. -/
def coinBase (i : ℕ) : CTransaction where
  vin := [⟨⟨0, uintMax⟩, [0, 0], uintMax⟩]
  vout := [⟨50 * COIN, []⟩]
  nLockTime := i

def block (i prev : ℕ) : CBlock := ⟨⟨2, prev, 0, 0, 0, i⟩, [coinBase i]⟩

def entry (i height : ℕ) (pprev pnext : Option uint256) : CBlockIndex :=
  ⟨some (i + 1), pprev, pnext, 1, i, height, i + 1, 2, 0, 0, 0, i⟩

def forkEnv : NodeEnv where
  fTestNet := false
  nBaseMaturity := 0
  totalBlocksEstimate := 0
  txHash tx := tx.nLockTime + 1
  blockHash header := header.nNonce + 1
  checkProofOfWork _ := true
  buildMerkleTree _ := 0
  getSigOpCount _ _ := 0
  getP2SHSigOpCount _ _ := 0
  isPayToScriptHash _ := false
  verifyScript _ _ _ _ _ _ := true
  blockFileTx _ _ := none
  blockFileBlock _ nBlockPos := some (block nBlockPos (if nBlockPos = 3 then 3 else 1))
  hashGenesisBlock := 1

/-- Block 2 follows the genesis block 1 and is the best block. The blocks 3 and 4 are a side
branch with more work, as a node finds it that had to step back on start. -/
def chain : ChainState :=
  { ChainState.initial with
    mapBlockIndex :=
      Finmap.insert 4 (entry 3 2 (some 3) none) (Finmap.insert 3 (entry 2 1 (some 1) none)
        (Finmap.insert 2 (entry 1 1 (some 1) none) (Finmap.insert 1 (entry 0 0 none (some 2)) ∅)))
    pindexGenesisBlock := some 1
    hashBestChain := 2
    pindexBest := some 2
    nBestHeight := 1
    bnBestChainWork := 2 }

def node : Node :=
  ⟨chain, ⟨⟨Finmap.insert 2 (.ofOutputs ⟨1, 1, 82⟩ 1) ∅, ∅, some 2, none⟩, none⟩⟩

theorem entry_chain (h : uint256) : chain.entry h =
    if h = 4 then some (entry 3 2 (some 3) none) else if h = 3 then some (entry 2 1 (some 1) none)
    else if h = 2 then some (entry 1 1 (some 1) none)
    else if h = 1 then some (entry 0 0 none (some 2)) else none := by
  simp [ChainState.entry, chain, Table.lookup_insert_ite]

theorem treeOk : TreeOk chain := by
  constructor
  · intro h e he
    rw [entry_chain] at he
    split_ifs at he with h4 h3 h2 h1 <;> cases he <;> simp [entry, *]
  · intro h e p he hp
    rw [entry_chain] at he
    split_ifs at he with h4 h3 h2 h1 <;> cases he <;> cases hp <;> exact ⟨_, rfl, rfl⟩
  · intro h e he hp
    rw [entry_chain] at he
    split_ifs at he with h4 h3 h2 h1 <;> cases he <;> cases hp
    rfl

theorem linked : Linked chain.pprev chain.pnext (some 2) := by
  have hnone : Linked chain.pprev (fun _ => none) none := by
    intro a b
    simp
  have hpush := (hnone.root (show chain.pprev 1 = none by decide)).push treeOk.graded
    (show chain.pprev 2 = some 1 by decide)
  have hnext : chain.pnext = fun a => if a = 1 then some 2 else none := by
    funext a
    rw [ChainState.pnext, entry_chain]
    split_ifs <;> simp_all [entry]
  rwa [hnext]

theorem blockIndexOk : BlockIndexOk forkEnv chain := by
  refine ⟨treeOk, by decide, by decide, linked, fun t r ht hr hroot => ?_⟩
  cases ht
  have hpprev : chain.pprev 2 = some 1 := by decide
  have hne : 2 ≠ r := by
    rintro rfl
    cases hpprev.symm.trans hroot
  exact congrArg some ((hr.of_parent hpprev hne).of_root (by decide))

theorem entryOf : EntryOf forkEnv chain 4 (block 3 3) :=
  ⟨rfl, ⟨_, rfl⟩, fun p hp => by cases hp; rfl⟩

def unreadable : ChainOutcome := { db := fun hash op => !(hash == 4 && op == .readBlock) }

end SampleFork

open SampleFork

theorem setBestChain_tipAgrees_sampleFork : TipAgrees false
        (setBestChain forkEnv {} false false node 4 (block 3 3)).2 ↔
      PostponedConnect forkEnv {} false node 4 :=
  setBestChain_tipAgrees_iff blockIndexOk entryOf (Prod.ext (by decide) rfl)

/-- The call returns true, the memory says 4 and the database says 3. -/
theorem setBestChain_tip_disagrees :
    BlockIndexOk forkEnv node.chain ∧
    (setBestChain forkEnv unreadable false false node 4
      (block 3 3)).1 = true ∧
    ¬ TipAgrees false (setBestChain forkEnv unreadable false false
      node 4 (block 3 3)).2 := by
  refine ⟨blockIndexOk, by decide, fun hagree => ?_⟩
  exact absurd hagree.database (by decide)

end Phoenixcoin.Analysis
