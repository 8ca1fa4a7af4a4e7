import Phoenixcoin.Analysis.TipAgreement
import Phoenixcoin.Program.ImportBatch

/-!
# Rolling back an import batch

While a batch is active, the block index is the one from before the batch, except for the
entries that the batch recorded and the forward link of the old best block. `RollbackMemory`
takes both back.
-/

set_option autoImplicit false

namespace Phoenixcoin.Analysis

open Lib Program Model ChainState CChainImportBatch List Option

/-! ## The state under a batch -/

/-- The index of `s` has grown from that of `s₀` by the entries `added`. Their parents are the
old best block or entries that `s₀` does not have. -/
structure GrownFrom (s₀ : ChainState) (added : List uint256) (s : ChainState) : Prop where
  kept : ∀ a, a ∉ added → s.entry a = s₀.entry a ∨
    a = s₀.hashBestChain ∧ ∃ next, s.entry a = (s₀.entry a).map fun e => { e with pnext := next }
  fresh : ∀ a ∈ added, s₀.entry a = none
  parents : ∀ a ∈ added, ∃ e, s.entry a = some e ∧
    ∀ p, e.pprev = some p → p = s₀.hashBestChain ∨ s₀.entry p = none

section Grown

variable {s₀ s : ChainState} {added : List uint256}

theorem GrownFrom.refl (s : ChainState) : GrownFrom s [] s :=
  ⟨fun _ _ => .inl rfl, fun _ ha => absurd ha not_mem_nil, fun _ ha => absurd ha not_mem_nil⟩

variable {h : uint256}

theorem GrownFrom.entry_none (hs : GrownFrom s₀ added s) (hh : s.entry h = none) :
    h ∉ added ∧ s₀.entry h = none := by
  have hnew : h ∉ added := by
    intro hmem
    obtain ⟨e, he, -⟩ := hs.parents h hmem
    cases hh.symm.trans he
  refine ⟨hnew, ?_⟩
  rcases hs.kept h hnew with hsame | ⟨-, next, hnext⟩
  · rw [← hsame, hh]
  · rw [hh] at hnext
    exact map_eq_none_iff.mp hnext.symm

theorem GrownFrom.setPnext (hs : GrownFrom s₀ added s) {p : uint256}
    (hp : p = s₀.hashBestChain ∨ s₀.entry p = none) (next : Option uint256) :
    GrownFrom s₀ added (s.setPnext p next) := by
  refine ⟨fun a ha => ?_, hs.fresh, fun a ha => ?_⟩
  · rw [entry_setPnext]
    split
    · next heq =>
      subst heq
      rcases hp with rfl | hnone
      · refine .inr ⟨rfl, next, ?_⟩
        rcases hs.kept _ ha with hsame | ⟨-, next', hnext'⟩
        · rw [hsame]
        · rw [hnext', Option.map_map]
          rfl
      · refine .inl ?_
        rcases hs.kept a ha with hsame | ⟨-, next', hnext'⟩
        · rw [hsame, hnone, map_none]
        · rw [hnext', hnone, map_none, map_none]
    · exact hs.kept a ha
  · obtain ⟨e, he, hparent⟩ := hs.parents a ha
    rw [entry_setPnext]
    split
    · next heq =>
      subst heq
      rw [he]
      exact ⟨_, rfl, hparent⟩
    · exact ⟨e, he, hparent⟩

theorem entry_insert (s : ChainState) (h : uint256) (e : CBlockIndex) (a : uint256) :
    ({ s with mapBlockIndex := s.mapBlockIndex.insert h e } : ChainState).entry a =
      if a = h then some e else s.entry a :=
  Table.lookup_insert_ite a h e s.mapBlockIndex

theorem entry_erase (s : ChainState) (h a : uint256) :
    ({ s with mapBlockIndex := s.mapBlockIndex.erase h } : ChainState).entry a =
      if a = h then none else s.entry a :=
  Table.lookup_erase_ite a h s.mapBlockIndex

theorem GrownFrom.insert (hs : GrownFrom s₀ added s) {e : CBlockIndex} (hh : s.entry h = none)
    (hparent : ∀ p, e.pprev = some p → p = s₀.hashBestChain ∨ s₀.entry p = none) :
    GrownFrom s₀ (added ++ [h]) { s with mapBlockIndex := s.mapBlockIndex.insert h e } := by
  obtain ⟨hnew, hfresh⟩ := hs.entry_none hh
  refine ⟨fun a ha => ?_, fun a ha => ?_, fun a ha => ?_⟩
  · rw [mem_append, mem_singleton, not_or] at ha
    rw [entry_insert, if_neg ha.2]
    exact hs.kept a ha.1
  · rcases mem_append.mp ha with ha | ha
    · exact hs.fresh a ha
    · exact (mem_singleton.mp ha) ▸ hfresh
  · rw [entry_insert]
    split
    · exact ⟨e, rfl, hparent⟩
    · next hne =>
      rcases mem_append.mp ha with ha | ha
      · exact hs.parents a ha
      · exact absurd (mem_singleton.mp ha) hne

theorem GrownFrom.erase (hs : GrownFrom s₀ (added ++ [h]) s) (hnodup : (added ++ [h]).Nodup) :
    GrownFrom s₀ added { s with mapBlockIndex := s.mapBlockIndex.erase h } := by
  have hne : ∀ a ∈ added, a ≠ h := by
    rintro a ha rfl
    exact (nodup_append.mp hnodup).2.2 a ha a (mem_singleton_self a) rfl
  refine ⟨fun a ha => ?_, fun a ha => hs.fresh a (mem_append_left _ ha), fun a ha => ?_⟩
  · rw [entry_erase]
    split
    · next heq =>
      exact .inl (heq ▸ (hs.fresh h (mem_append_right _ (mem_singleton_self h))).symm)
    · next hne' =>
      refine hs.kept a fun hmem => ?_
      rcases mem_append.mp hmem with hmem | hmem
      · exact ha hmem
      · exact hne' (mem_singleton.mp hmem)
  · rw [entry_erase, if_neg (hne a ha)]
    exact hs.parents a (mem_append_left _ ha)

/-! ## Rolling back -/

theorem GrownFrom.rollbackEntry (hs : GrownFrom s₀ (added ++ [h]) s) (hnodup : (added ++ [h]).Nodup)
    :
    GrownFrom s₀ added (rollbackEntry s h) := by
  obtain ⟨e, he, hparent⟩ := hs.parents h (mem_append_right _ (mem_singleton_self h))
  unfold CChainImportBatch.rollbackEntry
  cases hp : s.pprev h with
  | none => exact hs.erase hnodup
  | some p =>
    have hep : e.pprev = some p := by
      rwa [ChainState.pprev, he] at hp
    dsimp only
    split
    · exact (hs.setPnext (hparent p hep) none).erase hnodup
    · exact hs.erase hnodup

theorem GrownFrom.rollbackEntries (hs : GrownFrom s₀ added s) (hnodup : added.Nodup) :
    GrownFrom s₀ [] (added.reverse.foldl CChainImportBatch.rollbackEntry s) := by
  induction added using List.reverseRecOn generalizing s with
  | nil => exact hs
  | append_singleton l h ih =>
    rw [reverse_append, reverse_singleton, singleton_append]
    exact ih (hs.rollbackEntry hnodup) (nodup_append.mp hnodup).1

/-- The variables that the rollback gives back are those of `s₀`. -/
structure Restored (s₀ s : ChainState) : Prop where
  mapBlockIndex : s.mapBlockIndex = s₀.mapBlockIndex
  pindexGenesisBlock : s.pindexGenesisBlock = s₀.pindexGenesisBlock
  hashBestChain : s.hashBestChain = s₀.hashBestChain
  pindexBest : s.pindexBest = s₀.pindexBest
  nBestHeight : s.nBestHeight = s₀.nBestHeight
  bnBestChainWork : s.bnBestChainWork = s₀.bnBestChainWork
  nTimeBestReceived : s.nTimeBestReceived = s₀.nTimeBestReceived
  nTransactionsUpdated : s.nTransactionsUpdated = s₀.nTransactionsUpdated
  pblockindexFBBHLast : s.pblockindexFBBHLast = s₀.pblockindexFBBHLast

/-- The batch holds what `Begin` saved from `s₀`. -/
structure SavedFrom (s₀ : ChainState) (batch : CChainImportBatch) : Prop where
  savedBestChain : batch.savedBestChain = s₀.hashBestChain
  savedBest : batch.savedBest = s₀.pindexBest
  savedGenesis : batch.savedGenesis = s₀.pindexGenesisBlock
  savedBestHeight : batch.savedBestHeight = s₀.nBestHeight
  savedBestWork : batch.savedBestWork = s₀.bnBestChainWork
  savedTimeBestReceived : batch.savedTimeBestReceived = s₀.nTimeBestReceived
  savedTransactionsUpdated : batch.savedTransactionsUpdated = s₀.nTransactionsUpdated
  savedFBBHLast : batch.savedFBBHLast = s₀.pblockindexFBBHLast
  savedBestNext : batch.savedBestNext = s₀.pindexBest.bind s₀.pnext

theorem SavedFrom.record {batch : CChainImportBatch} (h : SavedFrom s₀ batch)
    (entry : BatchEntry) : SavedFrom s₀ (batch.record entry) :=
  ⟨h.1, h.2, h.3, h.4, h.5, h.6, h.7, h.8, h.9⟩

/-- The best block is the entry of `hashBestChain`. -/
def BestIsEntry (s : ChainState) : Prop :=
  s.pindexBest = (s.entry s.hashBestChain).map fun _ => s.hashBestChain

theorem rollbackMemory_restored {batch : CChainImportBatch} (hbest : BestIsEntry s₀)
    (hs : GrownFrom s₀ (batch.vEntries.map BatchEntry.hash) s)
    (hnodup : (batch.vEntries.map BatchEntry.hash).Nodup) (hsaved : SavedFrom s₀ batch) :
    Restored s₀ (rollbackMemory s batch).1 := by
  have hback := hs.rollbackEntries hnodup
  unfold rollbackMemory
  generalize (batch.vEntries.map BatchEntry.hash).reverse.foldl rollbackEntry s
    = back at hback ⊢
  obtain ⟨h1, h2, h3, h4, h5, h6, h7, h8, h9⟩ := hsaved
  rw [h1, h2, h3, h4, h5, h6, h7, h8, h9]
  unfold BestIsEntry at hbest
  cases he : s₀.entry s₀.hashBestChain with
  | none =>
    rw [he] at hbest
    rw [hbest]
    refine ⟨?_, rfl, rfl, hbest.symm, rfl, rfl, rfl, rfl, rfl⟩
    refine Finmap.ext_lookup fun a => ?_
    rcases hback.kept a not_mem_nil with hsame | ⟨rfl, next, hnext⟩
    · exact hsame
    · rw [he] at hnext
      exact hnext.trans he.symm
  | some e =>
    rw [he, map_some] at hbest
    have hnext : s₀.pnext s₀.hashBestChain = e.pnext := by
      rw [ChainState.pnext, he, bind_some]
    rw [hbest, bind_some, hnext]
    dsimp only
    generalize hset : ({ back with
      hashBestChain := s₀.hashBestChain
      pindexBest := some s₀.hashBestChain
      pindexGenesisBlock := s₀.pindexGenesisBlock
      nBestHeight := s₀.nBestHeight
      bnBestChainWork := s₀.bnBestChainWork
      nTimeBestReceived := s₀.nTimeBestReceived
      nTransactionsUpdated := s₀.nTransactionsUpdated
      pblockindexFBBHLast := s₀.pblockindexFBBHLast } : ChainState) = globals
    have hentry : ∀ a, (globals.setPnext s₀.hashBestChain e.pnext).entry a = s₀.entry a := by
      intro a
      have hglobals : globals.entry = back.entry := hset ▸ rfl
      rw [entry_setPnext, hglobals]
      rcases hback.kept a not_mem_nil with hsame | ⟨rfl, next, hnext⟩
      · split
        · next heq => rw [heq] at hsame ⊢; rw [hsame, he]; rfl
        · exact hsame
      · rw [if_pos rfl, hnext, he]
        rfl
    obtain ⟨table, htable⟩ := setPnext_rest globals s₀.hashBestChain e.pnext
    rw [htable] at hentry ⊢
    subst hset
    exact ⟨Finmap.ext_lookup hentry, rfl, rfl, hbest.symm, rfl, rfl, rfl, rfl, rfl⟩

end Grown

/-- What holds between two calls while a batch that began at `s₀` is active. -/
structure UnderBatch (s₀ : ChainState) (n : Node) (batch : CChainImportBatch) : Prop where
  active : batch.fActive = true
  saved : SavedFrom s₀ batch
  nodup : (batch.vEntries.map BatchEntry.hash).Nodup
  grown : GrownFrom s₀ (batch.vEntries.map BatchEntry.hash) n.chain
  tip : n.chain.hashBestChain = s₀.hashBestChain ∨ s₀.entry n.chain.hashBestChain = none

/-! ## Adding a block under a batch -/

variable {env : NodeEnv} {o : ChainOutcome}

/-- What a call does to the entries and to the best block: at most the new block is linked and
becomes the best one. -/
def AtMostExtends (h : uint256) (n n' : Node) : Prop :=
  (n'.chain.entry = n.chain.entry ∨ n'.chain.entry = (n.chain.link h).entry) ∧
    (n'.chain.hashBestChain = n.chain.hashBestChain ∨ n'.chain.hashBestChain = h)

theorem hashBestChain_link (s : ChainState) (h : uint256) :
    (s.link h).hashBestChain = s.hashBestChain := by
  unfold link setPnext
  split
  · split <;> rfl
  · rfl

theorem invalidChainFound_chain (h : uint256) (n : Node) :
    (invalidChainFound o h n).chain.entry = n.chain.entry ∧
      (invalidChainFound o h n).chain.hashBestChain = n.chain.hashBestChain := by
  unfold invalidChainFound
  dsimp only
  split <;> exact ⟨rfl, rfl⟩

variable {h : uint256} {n : Node} {s s₀ : ChainState} {batch : CChainImportBatch}

variable {fDeferCommit : Bool} {hash : uint256} {added : List uint256}

theorem setBestChainInner_extends {block : CBlock} :
    AtMostExtends h n (setBestChainInner env o fDeferCommit n h block).2 := by
  unfold setBestChainInner
  dsimp only
  split
  · obtain ⟨hentry, hbest⟩ :=
      @invalidChainFound_chain o h { n with txdb := n.txdb.txnAbort }
    exact ⟨.inl hentry, .inl hbest⟩
  · split
    · exact ⟨.inl rfl, .inl rfl⟩
    · split
      · exact ⟨.inl rfl, .inl rfl⟩
      · exact ⟨.inr rfl, .inl (hashBestChain_link n.chain h)⟩

theorem setGenesisBlock_extends :
    AtMostExtends h n (setGenesisBlock o fDeferCommit n h hash).2 := by
  unfold setGenesisBlock
  split
  · exact ⟨.inl rfl, .inl rfl⟩
  · split <;> exact ⟨.inl rfl, .inl rfl⟩

/-- With a deferred commit `SetBestChain` never reorganises. -/
theorem changeBestChain_extends {n : Node} {h : uint256} {block : CBlock} :
    AtMostExtends h n (changeBestChain env o true n h block).2 := by
  unfold changeBestChain
  dsimp only
  split
  · exact setGenesisBlock_extends
  · split
    · exact setBestChainInner_extends
    · exact ⟨.inl rfl, .inl rfl⟩

theorem setBestChain_extends {n : Node} {block : CBlock} :
    AtMostExtends (env.blockHash block.toCBlockHeader) n
      (setBestChain env o true true n (env.blockHash block.toCBlockHeader) block).2 := by
  have hextends := @changeBestChain_extends env o n (env.blockHash block.toCBlockHeader) block
  rw [setBestChain, if_pos rfl]
  dsimp only
  split
  · next heq =>
    rw [heq] at hextends
    exact hextends
  · next heq =>
    rw [heq] at hextends
    exact ⟨hextends.1, .inr rfl⟩

theorem writeNewBlock_extends {n : Node} {pindexNew : CBlockIndex} {block : CBlock} :
    AtMostExtends (env.blockHash block.toCBlockHeader) n
      (writeNewBlock env o true n (env.blockHash block.toCBlockHeader) pindexNew block).2 := by
  unfold writeNewBlock
  split
  · exact ⟨.inl rfl, .inl rfl⟩
  · next txdb _ =>
    dsimp only
    split
    · exact @setBestChain_extends env o { n with txdb := txdb } block
    · exact ⟨.inl rfl, .inl rfl⟩

theorem GrownFrom.congr {s' : ChainState} (hs : GrownFrom s₀ added s) (hentry : s'.entry = s.entry)
    :
    GrownFrom s₀ added s' := by
  obtain ⟨hkept, hfresh, hparents⟩ := hs
  rw [← hentry] at hkept hparents
  exact ⟨hkept, hfresh, hparents⟩

theorem GrownFrom.link (hs : GrownFrom s₀ added s) (hh : h ∈ added) :
    GrownFrom s₀ added (s.link h) := by
  obtain ⟨e, he, hparent⟩ := hs.parents h hh
  unfold ChainState.link
  split
  · next p hp =>
    refine hs.setPnext (hparent p ?_) (some h)
    rwa [ChainState.pprev, he] at hp
  · exact hs

theorem newBlockIndex_pprev {nFile nBlockPos : ℕ} {block : CBlock} {p : uint256}
    (h : (newBlockIndex s hash nFile nBlockPos block).pprev = some p) :
    p = block.hashPrevBlock := by
  unfold newBlockIndex at h
  dsimp only at h
  split at h
  · exact (Option.some.inj h).symm
  · cases h

theorem addToBlockIndex_underBatch {s₀ : ChainState} {n : Node} {batch : CChainImportBatch}
    (hn : UnderBatch s₀ n batch) (nFile nBlockPos : ℕ) (block : CBlock) :
    UnderBatch s₀ (addToBlockIndex env o nFile nBlockPos block n batch).2.1
      (addToBlockIndex env o nFile nBlockPos block n batch).2.2 := by
  obtain ⟨hactive, hsaved, hnodup, hgrown, htip⟩ := hn
  unfold addToBlockIndex
  dsimp only
  generalize hhash : env.blockHash block.toCBlockHeader = hash
  split
  · exact ⟨hactive, hsaved, hnodup, hgrown, htip⟩
  · next hdup =>
    have hnone : n.chain.entry hash = none := Finmap.lookup_eq_none.mpr hdup
    split
    · next hextending =>
      have hprev : block.hashPrevBlock = n.chain.hashBestChain := by
        simp only [isExtending, Bool.and_eq_true, decide_eq_true_eq] at hextending
        exact hextending.1.2
      have hparent : ∀ p, (newBlockIndex n.chain hash nFile nBlockPos block).pprev = some p →
          p = s₀.hashBestChain ∨ s₀.entry p = none := by
        intro p hp
        rw [newBlockIndex_pprev hp, hprev]
        exact htip
      obtain ⟨hnew, hfresh⟩ := hgrown.entry_none hnone
      have hadded := hgrown.insert hnone hparent
      obtain ⟨hentry, hbest⟩ := hhash ▸ @writeNewBlock_extends env o { n with
          chain :=
            { n.chain with
              mapBlockIndex := n.chain.mapBlockIndex.insert hash
                (newBlockIndex n.chain hash nFile nBlockPos block) } }
        (newBlockIndex n.chain hash nFile nBlockPos block) block
      refine ⟨hactive, hsaved.record _, ?_, ?_, ?_⟩
      · rw [record, map_append]
        exact hnodup.append (nodup_singleton _) (by simpa using hnew)
      · rw [record, map_append]
        rcases hentry with hentry | hentry
        · exact hadded.congr hentry
        · exact (hadded.link (mem_append_right _ (mem_singleton_self _))).congr hentry
      · rcases hbest with hbest | hbest
        · rw [hbest]
          exact htip
        · rw [hbest]
          exact .inr hfresh
    · refine ⟨hactive, hsaved, hnodup, hgrown.congr ?_, htip⟩
      funext a
      exact congrArg (Finmap.lookup a) (Table.erase_insert_of_lookup_none hnone)

/-! ## The whole batch -/

/-- A call made while a batch is active. -/
inductive BatchCall where
  | add (nFile nBlockPos : ℕ) (block : CBlock) (o : ChainOutcome)
  | addBytes (nBlockBytes : ℕ)

def batchCall (env : NodeEnv) (state : Node × CChainImportBatch) :
    BatchCall → Node × CChainImportBatch
  | .add nFile nBlockPos block o =>
    (addToBlockIndex env o nFile nBlockPos block state.1 state.2).2
  | .addBytes nBlockBytes => (state.1, state.2.addBytes nBlockBytes)

theorem batchCall_underBatch {s₀ : ChainState} {state : Node × CChainImportBatch}
    (h : UnderBatch s₀ state.1 state.2) (call : BatchCall) :
    UnderBatch s₀ (batchCall env state call).1 (batchCall env state call).2 := by
  cases call with
  | add nFile nBlockPos block o => exact addToBlockIndex_underBatch h nFile nBlockPos block
  | addBytes nBlockBytes =>
    obtain ⟨hactive, ⟨h1, h2, h3, h4, h5, h6, h7, h8, h9⟩, hnodup, hgrown, htip⟩ := h
    exact ⟨hactive, ⟨h1, h2, h3, h4, h5, h6, h7, h8, h9⟩, hnodup, hgrown, htip⟩

theorem batchCalls_underBatch (calls : List BatchCall) {state : Node × CChainImportBatch}
    (h : UnderBatch s₀ state.1 state.2) :
    UnderBatch s₀ (calls.foldl (batchCall env) state).1 (calls.foldl (batchCall env) state).2 := by
  induction calls generalizing state with
  | nil => exact h
  | cons call calls ih => exact ih (batchCall_underBatch h call)

theorem beginBatch_underBatch {ok : Bool} {n' : Node} {batch' : CChainImportBatch}
    (h : batch.beginBatch ok n = (true, n', batch')) : UnderBatch n.chain n' batch' := by
  unfold beginBatch at h
  split at h
  · cases h
  · split at h
    · cases h
    · cases h
      exact ⟨rfl, ⟨rfl, rfl, rfl, rfl, rfl, rfl, rfl, rfl, rfl⟩, nodup_nil, .refl _, .inl rfl⟩

theorem abortBatch_restored (hbest : BestIsEntry s₀) (h : UnderBatch s₀ n batch) :
    Restored s₀ (batch.abortBatch n).1.chain := by
  obtain ⟨hactive, ⟨h1, h2, h3, h4, h5, h6, h7, h8, h9⟩, hnodup, hgrown, -⟩ := h
  rw [abortBatch, if_neg (not_not.mpr hactive)]
  exact rollbackMemory_restored hbest hgrown hnodup ⟨h1, h2, h3, h4, h5, h6, h7, h8, h9⟩

theorem commitBatch_restored {s₀ : ChainState} {ok : Bool} {n : Node} {batch : CChainImportBatch}
    (hbest : BestIsEntry s₀) (h : UnderBatch s₀ n batch)
    (hfail : (batch.commitBatch ok n).1 = false) :
    Restored s₀ (batch.commitBatch ok n).2.1.chain := by
  obtain ⟨hactive, ⟨h1, h2, h3, h4, h5, h6, h7, h8, h9⟩, hnodup, hgrown, -⟩ := h
  rw [commitBatch, if_neg (not_not.mpr hactive)] at hfail ⊢
  split
  · exact rollbackMemory_restored hbest hgrown hnodup ⟨h1, h2, h3, h4, h5, h6, h7, h8, h9⟩
  · next heq =>
    rw [heq] at hfail
    cases hfail

/-- **Import batch rollback.** Whatever was added under a batch, and whether or not it
succeeded, aborting the batch or failing to commit it gives back the state that `Begin` saw. -/
theorem importBatch_restored {ok : Bool} {n n₀ : Node} {batch batch₀ : CChainImportBatch}
    (hbest : BestIsEntry n.chain) (hbegin : batch.beginBatch ok n = (true, n₀, batch₀))
    (calls : List BatchCall) :
    Restored n.chain ((calls.foldl (batchCall env) (n₀, batch₀)).2.abortBatch
      (calls.foldl (batchCall env) (n₀, batch₀)).1).1.chain ∧
    ∀ fCommit, ((calls.foldl (batchCall env) (n₀, batch₀)).2.commitBatch fCommit
        (calls.foldl (batchCall env) (n₀, batch₀)).1).1 = false →
      Restored n.chain ((calls.foldl (batchCall env) (n₀, batch₀)).2.commitBatch fCommit
        (calls.foldl (batchCall env) (n₀, batch₀)).1).2.1.chain := by
  have hunder : UnderBatch n.chain (calls.foldl (batchCall env) (n₀, batch₀)).1
      (calls.foldl (batchCall env) (n₀, batch₀)).2 :=
    batchCalls_underBatch calls (beginBatch_underBatch hbegin)
  exact ⟨abortBatch_restored hbest hunder, fun _ => commitBatch_restored hbest hunder⟩

namespace SampleBatch

def block (i prev : ℕ) : CBlock := { SampleFork.block i prev with nBits := 0x1e0ffff0 }

def begun : Bool × Node × CChainImportBatch :=
  new.beginBatch true SampleFork.node

/-- Two blocks are added, and the record of a third cannot be written. -/
def calls : List BatchCall :=
  [.add 1 10 (block 10 2) {}, .addBytes 200, .add 1 11 (block 11 11) {},
    .add 1 12 (block 12 12) { writeBlockIndex := false }]

def state : Node × CChainImportBatch := calls.foldl (batchCall SampleFork.forkEnv) begun.2

end SampleBatch

open SampleBatch

theorem importBatch_restored_sampleBatch :
    state.1.chain.hashBestChain = 12 ∧ state.2.vEntries.length = 3 ∧
      Restored SampleFork.chain (state.2.abortBatch state.1).1.chain := by
  have hbest : BestIsEntry SampleFork.node.chain := SampleFork.blockIndexOk.best
  have hbegin : new.beginBatch true SampleFork.node = begun := rfl
  exact ⟨by decide, by decide, (importBatch_restored hbest hbegin calls).1⟩

/-! ## The import of a block file -/

theorem commitBatch_false {n : Node} {batch : CChainImportBatch} (hactive : batch.fActive = true) :
    (batch.commitBatch false n).1 = false := by
  rw [commitBatch, CTxDB.txnCommit, if_neg (not_not.mpr hactive)]
  cases n.txdb.activeTxn <;> rfl

theorem processBlock_underBatch {s₀ : ChainState} {item : ImportedBlock} {n : Node}
    {batch : CChainImportBatch} (h : UnderBatch s₀ n batch) :
    UnderBatch s₀ (processBlock env item n batch).2.1 (processBlock env item n batch).2.2 := by
  unfold processBlock
  split
  · exact h
  · split
    · exact h
    · split
      · exact h
      · exact addToBlockIndex_underBatch h _ _ _

/-- One round of the import under a batch whose commit would fail goes on under the batch or
gives the old state back. -/
theorem importBlock_underBatch {s₀ : ChainState} {item : ImportedBlock} {n : Node}
    {batch : CChainImportBatch} (hbest : BestIsEntry s₀) (h : UnderBatch s₀ n batch)
    (hcommit : item.fCommit = false) :
    if (importBlock env item n batch).1 then
      UnderBatch s₀ (importBlock env item n batch).2.1 (importBlock env item n batch).2.2
    else Restored s₀ (importBlock env item n batch).2.1.chain := by
  unfold importBlock
  by_cases hknown : env.blockHash item.block.toCBlockHeader ∈ n.chain.mapBlockIndex ∨
      item.fKnownOrphan
  · rw [if_pos hknown]
    exact h
  rw [if_neg hknown]
  by_cases hboundary : batch.fActive ∧
      ¬ batch.canAppend env.toChainEnv item.fIdle n.chain item.block item.nSize
  · have hfail := @commitBatch_false n batch h.active
    have hrestored := commitBatch_restored hbest h hfail
    rw [if_pos hboundary, hcommit]
    generalize batch.commitBatch false n = result at hfail hrestored ⊢
    obtain ⟨fSuccess, n', batch'⟩ := result
    cases hfail
    exact hrestored
  · have hrunning : ¬ (¬ batch.fActive = true ∧
        isEligible env.toChainEnv item.fIdle n.chain item.block = true) :=
      fun hbegin => hbegin.1 h.active
    rw [if_neg hboundary]
    simp only [not_true_eq_false, if_false, if_neg hrunning]
    have hprocessed := @processBlock_underBatch env s₀ item n batch h
    generalize processBlock env item n batch = result at hprocessed ⊢
    obtain ⟨fProcessed, n', batch'⟩ := result
    cases fProcessed with
    | true =>
      rw [if_pos hprocessed.active]
      exact @batchCall_underBatch env s₀ (n', batch') hprocessed (.addBytes item.nSize)
    | false => exact abortBatch_restored hbest hprocessed

theorem loadExternalBlockFile_underBatch {items : List ImportedBlock} (hbest : BestIsEntry s₀)
    (h : UnderBatch s₀ n batch) (hcommit : ∀ item ∈ items, item.fCommit = false) :
    Restored s₀ (loadExternalBlockFile env false items n batch).1.chain := by
  induction items generalizing n batch with
  | nil => exact commitBatch_restored hbest h (commitBatch_false h.active)
  | cons item items ih =>
    have hround := @importBlock_underBatch env s₀ item n batch hbest h (hcommit item mem_cons_self)
    rw [loadExternalBlockFile]
    split
    · next heq =>
      rw [heq] at hround
      exact ih hround fun item hitem => hcommit item (mem_cons_of_mem _ hitem)
    · next heq =>
      rw [heq] at hround
      exact hround

/-- Whatever a block file holds, an import under a batch gives the state back that `Begin` saw when
none of its commits succeeds. -/
theorem loadExternalBlockFile_restored {ok : Bool} {items : List ImportedBlock} {n n₀ : Node}
    {batch batch₀ : CChainImportBatch} (hbest : BestIsEntry n.chain)
    (hbegin : batch.beginBatch ok n = (true, n₀, batch₀))
    (hcommit : ∀ item ∈ items, item.fCommit = false) :
    Restored n.chain (loadExternalBlockFile env false items n₀ batch₀).1.chain :=
  loadExternalBlockFile_underBatch hbest (beginBatch_underBatch hbegin) hcommit

/-- Two blocks are added before the last commit fails. -/
def SampleBatch.items : List ImportedBlock :=
  [⟨block 10 2, 200, 1, 10, false, true, true, true, true, false, {}⟩,
    ⟨block 11 11, 200, 1, 11, false, true, true, true, true, false, {}⟩]

def SampleBatch.fileEnv : NodeEnv := { SampleFork.forkEnv with totalBlocksEstimate := 100 }

theorem loadExternalBlockFile_restored_sampleBatch :
    (loadExternalBlockFile fileEnv true items begun.2.1
        begun.2.2).1.chain.hashBestChain = 12 ∧
      Restored SampleFork.chain (loadExternalBlockFile fileEnv false items
        begun.2.1 begun.2.2).1.chain := by
  have hbest : BestIsEntry SampleFork.node.chain := SampleFork.blockIndexOk.best
  have hbegin : new.beginBatch true SampleFork.node = begun := rfl
  have hcommit : ∀ item ∈ items, item.fCommit = false := by decide
  exact ⟨by decide, loadExternalBlockFile_restored hbest hbegin hcommit⟩

end Phoenixcoin.Analysis
