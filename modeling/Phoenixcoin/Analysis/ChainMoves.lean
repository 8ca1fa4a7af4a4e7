import Phoenixcoin.Analysis.BlockRecords
import Phoenixcoin.Model.BlockTree

/-!
# Moving the best chain

The loops of `SetBestChain` and `Reorganize` over block-index entries: the branches they list
are paths of the tree, and the forward links follow the tip along these paths.
-/

set_option autoImplicit false

namespace Phoenixcoin.Analysis

open Lib Program Model ChainState Option

/-! ## The branches -/

section Branches

variable {s : ChainState}

variable {pfork : uint256} {bnBestWork : ℕ}

theorem branch_path :
    ∀ {n : ℕ} {pindex : uint256} {l : List uint256}, s.branch pfork n pindex = some l →
      Path s.pprev pindex l pfork := by
  intro n
  induction n with
  | zero =>
    intro pindex l h
    cases h
  | succ n ih =>
    intro pindex l h
    rw [branch] at h
    split at h
    · next heq =>
      cases h
      subst heq
      exact .nil pindex
    · obtain ⟨pprev, hpprev, hmap⟩ := bind_eq_some_iff.mp h
      obtain ⟨rest, hrest, rfl⟩ := map_eq_some_iff.mp hmap
      exact .cons hpprev (ih hrest)

theorem postpone_path (bnBestWork : ℕ) (n : ℕ) (pindex : uint256) :
    Path s.pprev pindex (s.postpone bnBestWork n pindex).1 (s.postpone bnBestWork n pindex).2 := by
  induction n generalizing pindex with
  | zero => exact .nil pindex
  | succ n ih =>
    rw [postpone]
    split
    · next pprev hpprev =>
      split
      · exact .cons hpprev (ih pprev)
      · exact .nil pindex
    · exact .nil pindex

theorem postpone_eq_nil {n : ℕ} {pindex : uint256}
    (h : ∀ pprev, s.pprev pindex = some pprev → s.bnChainWork pprev ≤ bnBestWork) :
    s.postpone bnBestWork n pindex = ([], pindex) := by
  cases n with
  | zero => rfl
  | succ n =>
    rw [postpone]
    split
    · next pprev hpprev => rw [if_neg (not_lt.mpr (h pprev hpprev))]
    · rfl

/-! The loops end before their fuel does. -/

variable {r : uint256}

theorem lowerTo_spec (hs : TreeOk s) {nHeight : ℕ} (hr : s.nHeight r ≤ nHeight) :
    ∀ {n : ℕ} {plonger : uint256}, Above s.pprev plonger r → s.nHeight plonger < n →
      ∃ p, s.lowerTo nHeight n plonger = some p ∧ Above s.pprev plonger p ∧ Above s.pprev p r ∧
        s.nHeight p ≤ nHeight := by
  intro n
  induction n with
  | zero => exact fun _ hn => absurd hn (Nat.not_lt_zero _)
  | succ n ih =>
    intro plonger habove hn
    rw [lowerTo]
    split
    · next hhigher =>
      rcases habove.cases with rfl | ⟨pprev, hpprev, hrest⟩
      · exact absurd hr (by omega)
      · have hheight := hs.graded _ _ hpprev
        obtain ⟨p, hp, hbetween, hend⟩ := ih hrest (by omega)
        rw [hpprev]
        exact ⟨p, hp, .head hpprev hbetween, hend⟩
    · next hlow => exact ⟨plonger, rfl, .refl, habove, by omega⟩

/-- `Reorganize` finds a fork of two blocks that lie below a common block. -/
theorem findFork_spec (hs : TreeOk s) :
    ∀ {n : ℕ} {pfork plonger : uint256}, Above s.pprev pfork r → Above s.pprev plonger r →
      s.nHeight pfork < n → s.nHeight plonger < s.size →
      ∃ f, s.findFork n pfork plonger = some f ∧ Above s.pprev pfork f ∧
        Above s.pprev plonger f := by
  intro n
  induction n with
  | zero => exact fun _ _ hn => absurd hn (Nat.not_lt_zero _)
  | succ n ih =>
    intro pfork plonger hfork hlonger hn hsize
    rw [findFork]
    split
    · next heq => exact ⟨pfork, rfl, .refl, heq ▸ .refl⟩
    · obtain ⟨p, hp, hbelow, hpr, hheight⟩ :=
        lowerTo_spec hs (hfork.rank_le hs.graded) hlonger hsize
      rw [hp, bind_some]
      split
      · next heq => exact ⟨pfork, rfl, .refl, heq ▸ hbelow⟩
      · next hne =>
        rcases hfork.cases with rfl | ⟨pprev, hpprev, hrest⟩
        · exact absurd (hpr.eq_of_rank_le hs.graded hheight).symm hne
        · have hparent := hs.graded _ _ hpprev
          have hlow := hbelow.rank_le hs.graded
          obtain ⟨f, hf, hforkf, hpf⟩ := ih hrest hpr (by omega) (by omega)
          rw [hpprev]
          exact ⟨f, hf, .head hpprev hforkf, hbelow.trans hpf⟩

theorem branch_isSome (hs : TreeOk s) :
    ∀ {n : ℕ} {pindex : uint256}, Above s.pprev pindex pfork → s.nHeight pindex < n →
      (s.branch pfork n pindex).isSome := by
  intro n
  induction n with
  | zero => exact fun _ hn => absurd hn (Nat.not_lt_zero _)
  | succ n ih =>
    intro pindex habove hn
    rw [branch]
    split
    · rfl
    · next hne =>
      rcases habove.cases with rfl | ⟨pprev, hpprev, hrest⟩
      · exact absurd rfl hne
      · have hheight := hs.graded _ _ hpprev
        rw [hpprev, bind_some, isSome_map]
        exact ih hrest (by omega)

/-- The loops of `Reorganize` end for two blocks of the same tree. -/
theorem reorganize_loops_end (hs : TreeOk s) {a b : uint256} {ea eb : CBlockIndex}
    (hea : s.entry a = some ea) (heb : s.entry b = some eb) (ha : Above s.pprev a r)
    (hb : Above s.pprev b r) :
    ∃ f, s.findFork s.size a b = some f ∧ (s.branch f s.size a).isSome ∧
      (s.branch f s.size b).isSome := by
  obtain ⟨f, hf, haf, hbf⟩ :=
    findFork_spec hs ha hb (hs.nHeight_lt_size hea) (hs.nHeight_lt_size heb)
  exact ⟨f, hf, branch_isSome hs haf (hs.nHeight_lt_size hea),
    branch_isSome hs hbf (hs.nHeight_lt_size heb)⟩

end Branches

/-! ## The forward links -/

theorem pindexGenesisBlock_unlink (s : ChainState) (h : uint256) :
    (s.unlink h).pindexGenesisBlock = s.pindexGenesisBlock := by
  unfold unlink setPnext
  split
  · split <;> rfl
  · rfl

theorem pindexGenesisBlock_link (s : ChainState) (h : uint256) :
    (s.link h).pindexGenesisBlock = s.pindexGenesisBlock := by
  unfold link setPnext
  split
  · split <;> rfl
  · rfl

/-- The tree is the same and the forward links lead to `tip`. -/
structure TipMoved (s s' : ChainState) (tip : uint256) : Prop where
  tree : SameTree s s'
  genesis : s'.pindexGenesisBlock = s.pindexGenesisBlock
  linked : Linked s'.pprev s'.pnext (some tip)

variable {s : ChainState} {t : uint256} {ok : Bool} {txdb txdb' : CTxDB}

theorem tipMoved_unlink {p : uint256} (hs : TreeOk s) (hlinked : Linked s.pprev s.pnext (some t))
    (hp : s.pprev t = some p) :
    TipMoved s (s.unlink t) p := by
  refine ⟨sameTree_unlink s t, pindexGenesisBlock_unlink s t, ?_⟩
  obtain ⟨pe, hpe⟩ := hs.pprev_entry hp
  rw [(sameTree_unlink s t).pprev, unlink_eq hp, pnext_setPnext hpe]
  exact hlinked.pop hs.graded hp

variable {t' f hash : uint256} {s' : ChainState} {l : List uint256}

theorem tipMoved_link (hs : TreeOk s) (hlinked : Linked s.pprev s.pnext (some t))
    (hp : s.pprev t' = some t) :
    TipMoved s (s.link t') t' := by
  refine ⟨sameTree_link s t', pindexGenesisBlock_link s t', ?_⟩
  obtain ⟨pe, hpe⟩ := hs.pprev_entry hp
  rw [(sameTree_link s t').pprev, link_eq hp, pnext_setPnext hpe]
  exact hlinked.push hs.graded hp

theorem TipMoved.trans {s'' : ChainState} (h : TipMoved s s' t) (h' : TipMoved s' s'' t') :
    TipMoved s s'' t' :=
  ⟨h.tree.trans h'.tree, h'.genesis.trans h.genesis, h'.linked⟩

theorem TipMoved.addUpdates (h : TipMoved s s' t) (n : ℕ) :
    TipMoved s (s'.addUpdates n) t := ⟨h.tree, h.genesis, h.linked⟩

/-- Unlinking a branch moves the tip back to its start. -/
theorem tipMoved_unlinkBranch (hs : TreeOk s) (hlinked : Linked s.pprev s.pnext (some t))
    (hpath : Path s.pprev t l f) :
    TipMoved s (l.foldl unlink s) f := by
  induction l generalizing s t with
  | nil =>
    cases hpath
    exact ⟨.refl s, rfl, hlinked⟩
  | cons a l ih =>
    cases hpath with
    | cons hp hrest =>
      have hstep := tipMoved_unlink hs hlinked hp
      rw [← hstep.tree.pprev] at hrest
      exact hstep.trans (ih (hs.of_sameTree hstep.tree) hstep.linked hrest)

/-- Linking a branch moves the tip to its end. -/
theorem tipMoved_linkBranch (hs : TreeOk s) (hlinked : Linked s.pprev s.pnext (some f))
    (hpath : Descent s.pprev f l t) :
    TipMoved s (l.foldl link s) t := by
  induction l generalizing s f with
  | nil =>
    cases hpath
    exact ⟨.refl s, rfl, hlinked⟩
  | cons a l ih =>
    cases hpath with
    | cons hp hrest =>
      have hstep := tipMoved_link hs hlinked hp
      rw [← hstep.tree.pprev] at hrest
      exact hstep.trans (ih (hs.of_sameTree hstep.tree) hstep.linked hrest)

/-! ## Well-formed states -/

structure BlockIndexOk (env : NodeEnv) (s : ChainState) : Prop where
  tree : TreeOk s
  genesis : s.pprev env.hashGenesisBlock = none
  best : s.pindexBest = (s.entry s.hashBestChain).map fun _ => s.hashBestChain
  linked : Linked s.pprev s.pnext s.pindexBest
  rooted : ∀ t r, s.pindexBest = some t → Above s.pprev t r → s.pprev r = none →
    s.pindexGenesisBlock = some r

theorem BlockIndexOk.best_eq {env : NodeEnv} (hs : BlockIndexOk env s) (ht : s.pindexBest = some t)
    :
    t = s.hashBestChain ∧ ∃ e, s.entry t = some e := by
  obtain ⟨e, he, rfl⟩ := map_eq_some_iff.mp (hs.best.symm.trans ht)
  exact ⟨rfl, e, he⟩

/-! ## Ends of database transactions -/

theorem txnCommit_eq_true (h : txdb.txnCommit ok = (true, txdb')) :
    ok = true ∧ txdb.activeTxn = some txdb.view ∧ txdb' = ⟨txdb.view, none⟩ := by
  unfold CTxDB.txnCommit at h
  split at h
  · cases h
  · next records hactive =>
    have hview : txdb.view = records := by
      rw [CTxDB.view, hactive, getD_some]
    split at h
    · next hok =>
      cases h
      exact ⟨hok, hview ▸ hactive, by rw [hview]⟩
    · cases h

theorem txnCommit_eq_false (h : txdb.txnCommit ok = (false, txdb')) : txdb' = txdb.txnAbort := by
  unfold CTxDB.txnCommit at h
  split at h
  · next hactive =>
    cases h
    obtain ⟨stored, activeTxn⟩ := txdb
    cases hactive
    rfl
  · split at h
    · cases h
    · cases h
      rfl

theorem view_writeHashBestChain (h : txdb.writeHashBestChain ok hash = some txdb') :
    ok = true ∧ txdb'.view = { txdb.view with hashBestChain := some hash } := by
  unfold CTxDB.writeHashBestChain at h
  split at h
  · next hok =>
    cases h
    exact ⟨hok, CTxDB.view_update _ _⟩
  · cases h

theorem stored_writeHashBestChain {r : ChainRecords}
    (h : txdb.writeHashBestChain ok hash = some txdb') (hactive : txdb.activeTxn = some r) :
    txdb'.stored = txdb.stored := by
  unfold CTxDB.writeHashBestChain at h
  split at h
  · cases h
    rw [CTxDB.update, hactive]
  · cases h

/-! ## A reorganisation -/

section Reorganize

variable {env : NodeEnv} {o : ChainOutcome}

variable {pindexNew : uint256}

/-- What `Reorganize` commits. -/
theorem reorganizeDb_cases {vDisconnect vConnect : List uint256}
    (h : reorganizeDb env o s vDisconnect vConnect pindexNew txdb = some txdb') :
    ∃ txdb1 txdb2, vDisconnect.foldlM (disconnectIndexed env o s) txdb = some txdb1 ∧
      vConnect.foldlM (connectIndexed env o s) txdb1 = some txdb2 ∧
      txdb' = ⟨{ txdb2.view with hashBestChain := some pindexNew }, none⟩ := by
  simp only [reorganizeDb, bind_eq_bind, bind_eq_some_iff] at h
  obtain ⟨txdb1, hdisconnect, txdb2, hconnect, txdb3, hbest, hcommit⟩ := h
  generalize hcommitted : txdb3.txnCommit (o.txnCommit pindexNew) = result at hcommit
  obtain ⟨fCommitted, txdb4⟩ := result
  simp only [exists_guard_eq_some, Option.pure_def, Option.some.injEq] at hcommit
  obtain ⟨rfl, rfl⟩ := hcommit
  obtain ⟨-, -, rfl⟩ := txnCommit_eq_true hcommitted
  refine ⟨txdb1, txdb2, hdisconnect, hconnect, ?_⟩
  rw [(view_writeHashBestChain hbest).2]

/-- The branches and the two halves of a successful `Reorganize`. -/
theorem reorganize_cases {n n' : Node} (h : reorganize env o n pindexNew = some n') :
    ∃ pindexBest pfork vDisconnect vConnect, n.chain.pindexBest = some pindexBest ∧
      Path n.chain.pprev pindexBest vDisconnect pfork ∧
      Descent n.chain.pprev pfork vConnect pindexNew ∧
      reorganizeDb env o n.chain vDisconnect vConnect pindexNew n.txdb = some n'.txdb ∧
      n'.chain = (vConnect.foldl link (vDisconnect.foldl unlink n.chain)).addUpdates
        (o.nPoolUpdates pindexNew) := by
  simp only [reorganize, bind_eq_bind, bind_eq_some_iff, Option.pure_def, Option.some.injEq] at h
  obtain ⟨pindexBest, hbest, pfork, -, vDisconnect, hdisconnect, l, hconnect, txdb, hdb, rfl⟩ := h
  exact ⟨pindexBest, pfork, vDisconnect, l.reverse, hbest, branch_path hdisconnect,
    (branch_path hconnect).reverse, hdb, rfl⟩

end Reorganize

/-! ## A successful call -/

def Committed (fDeferCommit : Bool) (txdb txdb' : CTxDB) : Prop :=
  if fDeferCommit then txdb' = txdb
  else txdb.activeTxn = some txdb.view ∧ txdb' = ⟨txdb.view, none⟩

/-- The three ways in which `SetBestChain` can succeed, up to the new values of the globals. -/
inductive BestChainStep (env : NodeEnv) (o : ChainOutcome) (fDeferCommit : Bool) (n : Node)
    (pindexNew : uint256) (block : CBlock) : Node → Prop where
  | genesis (txdb' txdb'' : CTxDB)
      (hfirst : n.chain.pindexGenesisBlock = none)
      (hhash : env.blockHash block.toCBlockHeader = env.hashGenesisBlock)
      (hview : txdb'.view =
        { n.txdb.view with hashBestChain := some (env.blockHash block.toCBlockHeader) })
      (hcommit : Committed fDeferCommit txdb' txdb'') :
      BestChainStep env o fDeferCommit n pindexNew block
        ⟨{ n.chain with pindexGenesisBlock := some pindexNew }, txdb''⟩
  | extend (pprev : uint256) (txdb1 txdb2 txdb3 : CTxDB)
      (hprev : block.hashPrevBlock = n.chain.hashBestChain)
      (hpprev : n.chain.pprev pindexNew = some pprev)
      (hattach : attachBlock env o n.chain n.txdb pindexNew block = some txdb1)
      (hview : txdb2.view =
        { txdb1.view with hashBestChain := some (env.blockHash block.toCBlockHeader) })
      (hcommit : Committed fDeferCommit txdb2 txdb3) :
      BestChainStep env o fDeferCommit n pindexNew block
        ⟨(n.chain.link pindexNew).addUpdates (o.nPoolUpdates pindexNew), txdb3⟩
  | switch (pindexBest : uint256) (n' : Node)
      (hdefer : fDeferCommit = false)
      (hbest : n.chain.pindexBest = some pindexBest)
      (hreorganize : reorganize env o n
        (n.chain.postpone (n.chain.bnChainWork pindexBest) n.chain.size pindexNew).2 = some n') :
      BestChainStep env o fDeferCommit n pindexNew block (connectSecondary env o
          (n.chain.postpone (n.chain.bnChainWork pindexBest) n.chain.size pindexNew).1.reverse n')

section Cases

variable {env : NodeEnv} {o : ChainOutcome} {fDeferCommit : Bool} {n n' : Node}
  {pindexNew : uint256} {block : CBlock}

theorem committed_of_commit
    (h : (if fDeferCommit then (true, txdb) else txdb.txnCommit ok) = (true, txdb')) :
    Committed fDeferCommit txdb txdb' := by
  unfold Committed
  split
  · next hdefer =>
    rw [if_pos hdefer] at h
    cases h
    rfl
  · next hdefer =>
    rw [if_neg hdefer] at h
    exact (txnCommit_eq_true h).2

theorem setGenesisBlock_step (hfirst : n.chain.pindexGenesisBlock = none)
    (hhash : env.blockHash block.toCBlockHeader = env.hashGenesisBlock)
    (h : setGenesisBlock o fDeferCommit n pindexNew (env.blockHash block.toCBlockHeader) =
      (true, n')) : BestChainStep env o fDeferCommit n pindexNew block n' := by
  unfold setGenesisBlock at h
  split at h
  · cases h
  · next txdb' hbest =>
    split at h
    · cases h
    · next txdb'' hcommit =>
      cases h
      exact .genesis txdb' txdb'' hfirst hhash (view_writeHashBestChain hbest).2
        (committed_of_commit hcommit)

theorem setBestChainInner_step (hprev : block.hashPrevBlock = n.chain.hashBestChain)
    (h : setBestChainInner env o fDeferCommit n pindexNew block = (true, n')) :
    BestChainStep env o fDeferCommit n pindexNew block n' := by
  unfold setBestChainInner at h
  dsimp only at h
  split at h
  · cases h
  · next txdb2 hwrite =>
    obtain ⟨txdb1, hattach, hbest⟩ := bind_eq_some_iff.mp hwrite
    split at h
    · cases h
    · next txdb3 hcommit =>
      split at h
      · cases h
      · next pprev hpprev =>
        cases h
        exact .extend pprev txdb1 txdb2 txdb3 hprev hpprev hattach
          (view_writeHashBestChain hbest).2 (committed_of_commit hcommit)

theorem switchBranch_step (hdefer : fDeferCommit = false)
    (h : switchBranch env o n pindexNew = (true, n')) :
    BestChainStep env o fDeferCommit n pindexNew block n' := by
  unfold switchBranch at h
  split at h
  · cases h
  · next pindexBest hbest =>
    dsimp only at h
    split at h
    · cases h
    · next n1 hreorganize =>
      cases h
      exact .switch pindexBest n1 hdefer hbest hreorganize

theorem changeBestChain_step
    (h : changeBestChain env o fDeferCommit n pindexNew block = (true, n')) :
    BestChainStep env o fDeferCommit n pindexNew block n' := by
  unfold changeBestChain at h
  dsimp only at h
  split at h
  · next hgenesis => exact setGenesisBlock_step hgenesis.1 hgenesis.2 h
  · split at h
    · next hprev => exact setBestChainInner_step hprev h
    · split at h
      · cases h
      · next hdefer => exact switchBranch_step (Bool.not_eq_true _ ▸ hdefer) h

/-- A successful `SetBestChain` takes one of these ways and then sets the globals. -/
theorem setBestChain_step {fTxnActive : Bool}
    (h : setBestChain env o fTxnActive fDeferCommit n pindexNew block = (true, n')) :
    ∃ txdb n1, (if fTxnActive then some n.txdb else n.txdb.txnBegin o.txnBegin) = some txdb ∧
      BestChainStep env o fDeferCommit { n with txdb := txdb } pindexNew block n1 ∧
      n' = newBestBlock o pindexNew (env.blockHash block.toCBlockHeader) n1 := by
  unfold setBestChain at h
  split at h
  · cases h
  · next txdb hbegin =>
    split at h
    · cases h
    · next n1 hbranch =>
      cases h
      exact ⟨txdb, n1, hbegin, changeBestChain_step hbranch, rfl⟩

end Cases

end Phoenixcoin.Analysis
