import Phoenixcoin.Analysis.SyncCheckpoints
import Phoenixcoin.Program.OrphanBlocks

/-!
# Orphan blocks

The two maps of orphan blocks always point to the same objects, and no orphan waits for a block
that is in the index. The work queue holds every block that may have been added while some of its
children are still in the maps, so the loop ends when all of them are gone.
-/

set_option autoImplicit false

namespace Phoenixcoin.Analysis

open Lib Program Model ChainState List Option OrphanMaps Table

/-! ## The maps -/

/-- Both maps point to the objects on the heap and to nothing else, each under its key. -/
structure OrphansOk (blockHash : CBlockHeader → uint256) (m : OrphanMaps) : Prop where
  nodup : (m.mapOrphanBlocksByPrev.map Prod.snd).Nodup
  byPrev : ∀ hashPrev pblock, (hashPrev, pblock) ∈ m.mapOrphanBlocksByPrev →
    ∃ block, m.heap.lookup pblock = some block ∧ block.hashPrevBlock = hashPrev ∧
      m.mapOrphanBlocks.lookup (blockHash block.toCBlockHeader) = some pblock
  byHash : ∀ hash pblock, m.mapOrphanBlocks.lookup hash = some pblock →
    ∃ block, m.heap.lookup pblock = some block ∧ blockHash block.toCBlockHeader = hash ∧
      (block.hashPrevBlock, pblock) ∈ m.mapOrphanBlocksByPrev
  owned : ∀ pblock block, m.heap.lookup pblock = some block →
    (block.hashPrevBlock, pblock) ∈ m.mapOrphanBlocksByPrev

section Maps

variable {blockHash : CBlockHeader → uint256} {m : OrphanMaps}

theorem orphansOk_empty : OrphansOk blockHash empty := by
  refine ⟨nodup_nil, fun _ _ h => absurd h not_mem_nil, fun hash pblock h => ?_,
    fun pblock block h => ?_⟩
  · have hnone : empty.mapOrphanBlocks.lookup hash = none := Finmap.lookup_empty hash
    cases hnone.symm.trans h
  · have hnone : empty.heap.lookup pblock = none := Finmap.lookup_empty pblock
    cases hnone.symm.trans h

variable {items : List (uint256 × ℕ)} {block : CBlock}

/-- Only the elements of the multimap matter, not their order. -/
theorem OrphansOk.perm (h : OrphansOk blockHash m) (hperm : items.Perm m.mapOrphanBlocksByPrev) :
    OrphansOk blockHash { m with mapOrphanBlocksByPrev := items } := by
  refine ⟨(hperm.map Prod.snd).nodup_iff.mpr h.nodup, fun hashPrev pblock hmem => ?_,
    fun hash pblock hlookup => ?_, fun pblock block hlookup => ?_⟩
  · exact h.byPrev hashPrev pblock (hperm.mem_iff.mp hmem)
  · obtain ⟨block, hheap, hhash, hmem⟩ := h.byHash hash pblock hlookup
    exact ⟨block, hheap, hhash, hperm.mem_iff.mpr hmem⟩
  · exact hperm.mem_iff.mpr (h.owned pblock block hlookup)

theorem fresh_address (heap : Table ℕ CBlock) : heap.keys.sup id + 1 ∉ heap := by
  intro hmem
  have hle : heap.keys.sup id + 1 ≤ heap.keys.sup id :=
    Finset.le_sup (f := id) (Finmap.mem_keys.mpr hmem)
  omega

theorem OrphansOk.insert (h : OrphansOk blockHash m)
    (hnew : blockHash block.toCBlockHeader ∉ m.mapOrphanBlocks) :
    OrphansOk blockHash (m.insert (blockHash block.toCBlockHeader) block) := by
  unfold OrphanMaps.insert
  generalize haddress : m.heap.keys.sup id + 1 = address
  have hfresh : m.heap.lookup address = none :=
    Finmap.lookup_eq_none.mpr (haddress ▸ fresh_address m.heap)
  have hold {hashPrev : uint256} {pblock : ℕ}
      (hmem : (hashPrev, pblock) ∈ m.mapOrphanBlocksByPrev) : pblock ≠ address := by
    obtain ⟨other, hlookup, -⟩ := h.byPrev hashPrev pblock hmem
    rintro rfl
    cases hfresh.symm.trans hlookup
  refine ⟨?_, fun hashPrev pblock hmem => ?_, fun hash pblock hlookup => ?_,
    fun pblock other hlookup => ?_⟩
  · rw [map_append]
    refine h.nodup.append (nodup_singleton _) ?_
    intro pblock hmem hlast
    obtain ⟨item, hitem, rfl⟩ := List.mem_map.mp hmem
    exact hold hitem (mem_singleton.mp hlast)
  · rcases mem_append.mp hmem with hmem | hlast
    · obtain ⟨other, hheap, hprev, hlookup⟩ := h.byPrev hashPrev pblock hmem
      refine ⟨other, ?_, hprev, ?_⟩
      · rw [lookup_insert_ite, if_neg (hold hmem)]
        exact hheap
      · rw [lookup_insert_ite, if_neg, hlookup]
        intro heq
        exact hnew (heq ▸ Finmap.mem_of_lookup_eq_some hlookup)
    · cases mem_singleton.mp hlast
      refine ⟨block, ?_, rfl, ?_⟩
      · rw [lookup_insert_ite, if_pos rfl]
      · rw [lookup_insert_ite, if_pos rfl]
  · rw [lookup_insert_ite] at hlookup
    split at hlookup
    · next heq =>
      cases hlookup
      refine ⟨block, ?_, heq.symm, mem_append_right _ (mem_singleton_self _)⟩
      rw [lookup_insert_ite, if_pos rfl]
    · obtain ⟨other, hheap, hhash, hmem⟩ := h.byHash hash pblock hlookup
      refine ⟨other, ?_, hhash, mem_append_left _ hmem⟩
      rw [lookup_insert_ite, if_neg (hold hmem)]
      exact hheap
  · rw [lookup_insert_ite] at hlookup
    split at hlookup
    · next heq =>
      cases hlookup
      rw [heq]
      exact mem_append_right _ (mem_singleton_self _)
    · exact mem_append_left _ (h.owned pblock other hlookup)

theorem OrphansOk.delete {rest : List (uint256 × ℕ)} {hashPrev : uint256} {pblock : ℕ}
    (h : OrphansOk blockHash
      { m with mapOrphanBlocksByPrev := items ++ (hashPrev, pblock) :: rest })
    (hblock : m.heap.lookup pblock = some block) :
    OrphansOk blockHash { m.delete (blockHash block.toCBlockHeader) pblock with
        mapOrphanBlocksByPrev := items ++ rest } := by
  have hcons := h.perm (perm_middle (a := (hashPrev, pblock))).symm
  obtain ⟨hnodup, hprev, hhash, howned⟩ := hcons
  rw [map_cons, nodup_cons] at hnodup
  have hne {q : uint256} {p : ℕ} (hmem : (q, p) ∈ items ++ rest) : p ≠ pblock := by
    rintro rfl
    exact hnodup.1 (List.mem_map.mpr ⟨(q, p), hmem, rfl⟩)
  -- A pointer that stays is stored under a hash of its own.
  have hhash_ne {p : ℕ} {other : CBlock} (hp : p ≠ pblock)
      (hlookup : m.mapOrphanBlocks.lookup (blockHash other.toCBlockHeader) = some p) :
      blockHash other.toCBlockHeader ≠ blockHash block.toCBlockHeader := by
    intro heq
    obtain ⟨b, hb, -, hself⟩ := hprev hashPrev pblock mem_cons_self
    cases hblock.symm.trans hb
    rw [heq] at hlookup
    exact hp (Option.some.inj (hlookup.symm.trans hself))
  have hstays {q : uint256} {p : ℕ} (hmem : (q, p) ∈ (hashPrev, pblock) :: (items ++ rest))
      (hp : p ≠ pblock) : (q, p) ∈ items ++ rest := by
    rcases mem_cons.mp hmem with heq | hmem
    · exact absurd (congrArg Prod.snd heq) hp
    · exact hmem
  unfold OrphanMaps.delete
  refine ⟨hnodup.2, fun q p hmem => ?_, fun hash p hlookup => ?_, fun p other hlookup => ?_⟩
  · obtain ⟨other, hheap, hq, hlookup⟩ := hprev q p (mem_cons_of_mem _ hmem)
    refine ⟨other, ?_, hq, ?_⟩
    · rw [lookup_erase_ite, if_neg (hne hmem)]
      exact hheap
    · rw [lookup_erase_ite, if_neg (hhash_ne (hne hmem) hlookup)]
      exact hlookup
  · rw [lookup_erase_ite] at hlookup
    split at hlookup
    · cases hlookup
    · next hother =>
      obtain ⟨other, hheap, rfl, hmem⟩ := hhash hash p hlookup
      have hp : p ≠ pblock := by
        rintro rfl
        cases hblock.symm.trans hheap
        exact hother rfl
      refine ⟨other, ?_, rfl, hstays hmem hp⟩
      rw [lookup_erase_ite, if_neg hp]
      exact hheap
  · rw [lookup_erase_ite] at hlookup
    split at hlookup
    · cases hlookup
    · next hp => exact hstays (howned p other hlookup) hp

end Maps

/-! ## The entries of the index -/

/-- The node has a best block, and its pointers lead to entries. -/
structure HeadsKnown (s : ChainState) : Prop where
  best : s.pindexBest = some s.hashBestChain ∧ s.hashBestChain ∈ s.mapBlockIndex
  genesis : ∀ h, s.pindexGenesisBlock = some h → h ∈ s.mapBlockIndex

section Chain

variable {env : NodeEnv} {o : ChainOutcome} {n n' : Node} {s s' : ChainState} {h : uint256}
  {block : CBlock}

theorem HeadsKnown.bestIsEntry (hs : HeadsKnown s) : BestIsEntry s := by
  obtain ⟨e, he⟩ := mem_iff_entry.mp hs.best.2
  rw [BestIsEntry, he, hs.best.1]
  rfl

theorem SameTree.mem_iff (hsame : SameTree s s') (h : uint256) :
    h ∈ s'.mapBlockIndex ↔ h ∈ s.mapBlockIndex :=
  ⟨(Grown.of_sameTree hsame.symm).mem h, (Grown.of_sameTree hsame).mem h⟩

theorem HeadsKnown.congr (hs : HeadsKnown s) (hsame : SameTree s s')
    (hbest : s'.pindexBest = s.pindexBest) (hhash : s'.hashBestChain = s.hashBestChain)
    (hgenesis : s'.pindexGenesisBlock = s.pindexGenesisBlock) : HeadsKnown s' := by
  refine ⟨?_, fun g hg => ?_⟩
  · rw [hbest, hhash, SameTree.mem_iff hsame]
    exact hs.best
  · rw [SameTree.mem_iff hsame]
    exact hs.genesis g (hgenesis ▸ hg)

/-! ### A new best block -/

def SameRoot (s s' : ChainState) : Prop :=
  SameTree s s' ∧ s'.pindexGenesisBlock = s.pindexGenesisBlock

variable {s'' : ChainState} {batch batch' : CChainImportBatch} {nBlockPos nFile : ℕ}

theorem SameRoot.trans (h : SameRoot s s') (h' : SameRoot s' s'') :
    SameRoot s s'' := ⟨h.1.trans h'.1, h'.2.trans h.2⟩

theorem sameRoot_link (s : ChainState) (h : uint256) : SameRoot s (s.link h) :=
  ⟨sameTree_link s h, pindexGenesisBlock_link s h⟩

theorem sameRoot_unlink (s : ChainState) (h : uint256) : SameRoot s (s.unlink h) :=
  ⟨sameTree_unlink s h, pindexGenesisBlock_unlink s h⟩

theorem KeepsChain.sameRoot (h : KeepsChain n n') : SameRoot n.chain n'.chain := by
  obtain ⟨bnWork, hchain⟩ := h
  rw [hchain]
  exact ⟨sameTree_of_mapBlockIndex rfl, rfl⟩

theorem sameRoot_foldl {f : ChainState → uint256 → ChainState}
    (hf : ∀ s h, SameRoot s (f s h)) (l : List uint256) (s : ChainState) :
    SameRoot s (l.foldl f s) := by
  induction l generalizing s with
  | nil => exact ⟨.refl s, rfl⟩
  | cons h l ih => exact (hf s h).trans (ih (f s h))

theorem reorganize_sameRoot (hret : reorganize env o n h = some n') :
    SameRoot n.chain n'.chain := by
  obtain ⟨-, -, vDisconnect, vConnect, -, -, -, -, hchain⟩ := reorganize_cases hret
  rw [hchain]
  have hunlink := sameRoot_foldl sameRoot_unlink vDisconnect n.chain
  exact hunlink.trans (sameRoot_foldl sameRoot_link vConnect _)

theorem connectSecondary_sameRoot (l : List uint256) (n : Node) :
    SameRoot n.chain (connectSecondary env o l n).chain := by
  induction l generalizing n with
  | nil => exact ⟨.refl _, rfl⟩
  | cons a l ih =>
    rw [connectSecondary]
    split
    · exact ⟨.refl _, rfl⟩
    · split
      · exact ⟨.refl _, rfl⟩
      · split
        · next hret => exact (setBestChainInner_refused hret).sameRoot
        · next hret =>
          obtain ⟨p, -, hchain⟩ := setBestChainInner_accepted hret
          refine SameRoot.trans ?_ (ih _)
          rw [hchain]
          exact sameRoot_link n.chain a

variable {fSuccess : Bool} {added : Prop} {e : CBlockIndex}

/-- `SetBestChain` changes no entry but for its forward link. -/
theorem setBestChain_heads {fTxnActive fDeferCommit : Bool} (hs : HeadsKnown n.chain)
    (hmem : h ∈ n.chain.mapBlockIndex) (hhash : env.blockHash block.toCBlockHeader = h)
    (hret : setBestChain env o fTxnActive fDeferCommit n h block = (fSuccess, n')) :
    HeadsKnown n'.chain ∧ SameTree n.chain n'.chain := by
  cases fSuccess with
  | false =>
    obtain ⟨bnWork, hchain⟩ := setBestChain_refused hret
    rw [hchain]
    have hsame : SameTree n.chain { n.chain with bnBestInvalidWork := bnWork } :=
      sameTree_of_mapBlockIndex rfl
    exact ⟨hs.congr hsame rfl rfl rfl, hsame⟩
  | true =>
    obtain ⟨txdb, n1, -, hstep, rfl⟩ := setBestChain_step hret
    rw [hhash]
    have hnew (hsame : SameTree n.chain n1.chain)
        (hgenesis : ∀ g, n1.chain.pindexGenesisBlock = some g → g ∈ n.chain.mapBlockIndex) :
        HeadsKnown (newBestBlock o h h n1).chain ∧
          SameTree n.chain (newBestBlock o h h n1).chain := by
      have hsame' : SameTree n.chain (newBestBlock o h h n1).chain := hsame
      refine ⟨⟨⟨rfl, ?_⟩, fun g hg => ?_⟩, hsame'⟩
      · exact (SameTree.mem_iff hsame' h).mpr hmem
      · exact (SameTree.mem_iff hsame' g).mpr (hgenesis g hg)
    have hroot (hsame : SameRoot n.chain n1.chain) :=
      hnew hsame.1 fun g hg => hs.genesis g (hsame.2 ▸ hg)
    cases hstep with
    | genesis txdb1 txdb2 hfirst =>
      refine hnew (sameTree_of_mapBlockIndex rfl) fun g hg => ?_
      cases hg
      exact hmem
    | extend p txdb1 txdb2 txdb3 hprev hp => exact hroot (sameRoot_link n.chain h)
    | switch t n2 hdefer hbest hreorganize =>
      have hmoved := @reorganize_sameRoot env o { n with txdb := txdb } n2 _ hreorganize
      exact hroot (hmoved.trans (connectSecondary_sameRoot _ n2))

/-! ### A new block -/

/-- No entry is new but that of `h`, and this only if `added` holds. -/
structure IndexStep (s s' : ChainState) (h : uint256) (added : Prop) : Prop where
  heads : HeadsKnown s'
  mem : ∀ a, a ∈ s'.mapBlockIndex → a ∈ s.mapBlockIndex ∨ added ∧ a = h

theorem IndexStep.of_sameTree (hs : HeadsKnown s') (hsame : SameTree s s') :
    IndexStep s s' h added :=
  ⟨hs, fun a ha => Or.inl ((SameTree.mem_iff hsame a).mp ha)⟩

theorem IndexStep.trans_sameTree (hstep : IndexStep s s' h added) (hs : HeadsKnown s'')
    (hsame : SameTree s' s'') : IndexStep s s'' h added :=
  ⟨hs, fun a ha => hstep.mem a ((SameTree.mem_iff hsame a).mp ha)⟩

theorem mem_insertEntry {a : uint256} :
    a ∈ (insertEntry s h e).mapBlockIndex ↔ a = h ∨ a ∈ s.mapBlockIndex :=
  Finmap.mem_insert

theorem HeadsKnown.insertEntry (hs : HeadsKnown s) : HeadsKnown (insertEntry s h e) :=
  ⟨⟨hs.best.1, mem_insertEntry.mpr (Or.inr hs.best.2)⟩,
    fun g hg => mem_insertEntry.mpr (Or.inr (hs.genesis g hg))⟩

theorem rollbackBlockIndexEntry_step (bnWork : ℕ) {added : Prop} (hs : HeadsKnown s)
    (hfresh : h ∉ s.mapBlockIndex) (hnext : e.pnext = none) :
    IndexStep s (rollbackBlockIndexEntry { insertEntry s h e with bnBestInvalidWork := bnWork } h) h
      added := by
  have hbest : s.pindexBest ≠ some h := by
    rw [hs.best.1]
    intro heq
    exact hfresh (Option.some.inj heq ▸ hs.best.2)
  have hgenesis : s.pindexGenesisBlock ≠ some h := fun heq => hfresh (hs.genesis h heq)
  have hpnext : (insertEntry s h e).pnext h = none := by
    rw [ChainState.pnext, entry_insertEntry, if_pos rfl]
    exact hnext
  have hroot : ∀ s' : ChainState, SameTree (insertEntry s h e) s' →
      s'.pindexBest = s.pindexBest → s'.hashBestChain = s.hashBestChain →
      s'.pindexGenesisBlock = s.pindexGenesisBlock → ∀ pindex,
      IndexStep s { s' with
        pblockindexFBBHLast := pindex
        mapBlockIndex := s'.mapBlockIndex.erase h } h added := by
    intro s' hsame hbest' hhash' hgenesis' pindex
    have hmem (a : uint256) : a ∈ s'.mapBlockIndex.erase h ↔ a ∈ s.mapBlockIndex := by
      rw [Finmap.mem_erase, SameTree.mem_iff hsame, mem_insertEntry]
      constructor
      · intro ha
        exact ha.2.resolve_left ha.1
      · intro ha
        exact ⟨fun heq => hfresh (heq ▸ ha), Or.inr ha⟩
    refine ⟨⟨?_, fun g hg => ?_⟩, fun a ha => Or.inl ((hmem a).mp ha)⟩
    · refine ⟨?_, (hmem _).mpr ?_⟩
      · rw [hbest', hhash']
        exact hs.best.1
      · rw [hhash']
        exact hs.best.2
    · exact (hmem g).mpr (hs.genesis g (hgenesis' ▸ hg))
  rw [rollbackBlockIndexEntry, if_neg]
  · split
    · split
      · next p _ _ =>
        have hset := setPnext_rest { insertEntry s h e with bnBestInvalidWork := bnWork } p none
        obtain ⟨table, htable⟩ := hset
        have hsame := sameTree_setPnext
          { insertEntry s h e with bnBestInvalidWork := bnWork } p none
        rw [htable] at hsame ⊢
        exact hroot _ hsame rfl rfl rfl _
      · exact hroot { insertEntry s h e with bnBestInvalidWork := bnWork }
          (sameTree_of_mapBlockIndex rfl) rfl rfl rfl _
    · exact hroot { insertEntry s h e with bnBestInvalidWork := bnWork }
        (sameTree_of_mapBlockIndex rfl) rfl rfl rfl _
  · rintro (heq | heq | heq)
    · exact hbest heq
    · exact hgenesis heq
    · exact heq hpnext

theorem writeNewBlock_heads {fBatch : Bool} (hs : HeadsKnown n.chain)
    (hmem : h ∈ n.chain.mapBlockIndex) (hhash : env.blockHash block.toCBlockHeader = h)
    (hret : writeNewBlock env o fBatch n h e block = (fSuccess, n')) :
    HeadsKnown n'.chain ∧ SameTree n.chain n'.chain := by
  unfold writeNewBlock at hret
  split at hret
  · cases hret
    exact ⟨hs, .refl _⟩
  · next txdb hwrite =>
    dsimp only at hret
    split at hret
    · exact setBestChain_heads (n := { n with txdb := txdb }) hs hmem hhash hret
    · obtain ⟨-, rfl⟩ := Prod.mk.inj hret
      exact ⟨hs, .refl _⟩

theorem addAlone_step {txdb : CTxDB} (hs : HeadsKnown s) (hfresh : h ∉ s.mapBlockIndex)
    (hnext : e.pnext = none) (hhash : env.blockHash block.toCBlockHeader = h)
    (hret : addAlone env o ⟨insertEntry s h e, txdb⟩ h e block = (fSuccess, n')) :
    IndexStep s n'.chain h (fSuccess = true) := by
  have hmem : h ∈ (insertEntry s h e).mapBlockIndex := mem_insertEntry.mpr (Or.inl rfl)
  unfold addAlone at hret
  split at hret
  · cases hret
    exact rollbackBlockIndexEntry_step (insertEntry s h e).bnBestInvalidWork hs hfresh hnext
  · next txdb' hbegin =>
    split at hret
    · next n1 hwrite =>
      cases hret
      obtain ⟨bnWork, hchain⟩ := writeNewBlock_refused hwrite
      rw [hchain]
      exact rollbackBlockIndexEntry_step bnWork hs hfresh hnext
    · next n1 hwrite =>
      cases hret
      obtain ⟨hheads, hsame⟩ := writeNewBlock_heads
        (n := { chain := insertEntry s h e, txdb := txdb' }) hs.insertEntry hmem hhash hwrite
      have hstep : IndexStep s n1.chain h (true = true) := by
        refine ⟨hheads, fun a ha => ?_⟩
        have hor := mem_insertEntry.mp ((SameTree.mem_iff hsame a).mp ha)
        exact hor.symm.imp_right fun heq => ⟨rfl, heq⟩
      split
      · exact hstep.trans_sameTree (hheads.congr (sameTree_of_mapBlockIndex rfl) rfl rfl rfl)
          (sameTree_of_mapBlockIndex rfl)
      · exact hstep

theorem addToBlockIndex_step (hs : HeadsKnown n.chain) (hbatch : batch.fActive = false)
    (hret : addToBlockIndex env o nFile nBlockPos block n batch = (fSuccess, n', batch')) :
    IndexStep n.chain n'.chain (env.blockHash block.toCBlockHeader) (fSuccess = true) ∧
      batch' = batch := by
  unfold addToBlockIndex at hret
  dsimp only at hret
  split at hret
  · cases hret
    exact ⟨.of_sameTree hs (.refl _), rfl⟩
  · next hfresh =>
    rw [if_neg (Bool.eq_false_iff.mp hbatch)] at hret
    obtain ⟨hres, hpair⟩ := Prod.mk.inj hret
    obtain ⟨hn', hb'⟩ := Prod.mk.inj hpair
    exact ⟨addAlone_step hs hfresh (newBlockIndex_pnext _ _ _ _ _) rfl
      (Prod.ext hres hn'), hb'.symm⟩

/-- Under a batch the heads stay known too. -/
theorem addToBlockIndex_heads (hs : HeadsKnown n.chain) (hbatch : batch.fActive = true)
    (hret : addToBlockIndex env o nFile nBlockPos block n batch = (fSuccess, n', batch')) :
    HeadsKnown n'.chain := by
  unfold addToBlockIndex at hret
  dsimp only at hret
  generalize hhash : env.blockHash block.toCBlockHeader = hash at hret
  split at hret
  · cases hret
    exact hs
  · next hfresh =>
    split at hret
    · obtain ⟨hres, hpair⟩ := Prod.mk.inj hret
      obtain ⟨hn', -⟩ := Prod.mk.inj hpair
      generalize newBlockIndex n.chain hash nFile nBlockPos block = pindexNew at hres hn'
      have hmem : hash ∈ (Analysis.insertEntry n.chain hash pindexNew).mapBlockIndex :=
        mem_insertEntry.mpr (Or.inl rfl)
      exact (writeNewBlock_heads (n := ⟨Analysis.insertEntry n.chain hash pindexNew, n.txdb⟩)
        hs.insertEntry hmem hhash (Prod.ext hres hn')).1
    · cases hret
      have htable : (n.chain.mapBlockIndex.insert hash
          (newBlockIndex n.chain hash nFile nBlockPos block)).erase hash =
          n.chain.mapBlockIndex :=
        erase_insert_of_lookup_none (Finmap.lookup_eq_none.mpr hfresh)
      exact hs.congr (sameTree_of_mapBlockIndex htable) rfl rfl rfl

end Chain

/-! ## Accepting a block -/

section Accept

variable {env : CheckpointEnv} {n n' : Node} {c c' : SyncCheckpoints} {s s' : CheckpointNode}
  {block : CBlock}

def OnlyMoves (n n' : Node) : Prop := HeadsKnown n'.chain ∧ SameTree n.chain n'.chain

variable {b : Bool} {o : CheckpointOutcome} {error : Option BlockError}

variable {hash : uint256} {batch : CChainImportBatch}

section

variable (hs : HeadsKnown n.chain)
include hs

theorem moveToCheckpoint_onlyMoves (h : moveToCheckpoint env o hash n c = (b, n', c')) :
    OnlyMoves n n' := by
  unfold moveToCheckpoint at h
  split at h
  · cases h
    exact ⟨hs, .refl _⟩
  · split at h
    · cases h
      exact ⟨hs, .refl _⟩
    · next block hread =>
      obtain ⟨e, he, hblock⟩ := bind_eq_some_iff.mp hread
      have hmem : hash ∈ n.chain.mapBlockIndex := mem_iff_entry.mpr ⟨e, he⟩
      have hhash := readBlockFromDisk_hash hblock
      split at h
      · next n1 hset =>
        have hmoved := setBestChain_heads hs hmem hhash hset
        cases h
        exact hmoved
      · next n1 hset =>
        have hmoved := setBestChain_heads hs hmem hhash hset
        cases h
        exact hmoved

theorem acceptPendingSyncCheckpoint_onlyMoves
    (h : acceptPendingSyncCheckpoint env o n c = (b, n', c')) :
    OnlyMoves n n' := by
  unfold acceptPendingSyncCheckpoint at h
  split at h
  · split at h
    · cases h
      exact ⟨hs, .refl _⟩
    · split at h
      · next hmove =>
        cases h
        exact moveToCheckpoint_onlyMoves hs hmove
      · next hmove =>
        cases h
        exact moveToCheckpoint_onlyMoves hs hmove
  · cases h
    exact ⟨hs, .refl _⟩

theorem processSyncCheckpoint_onlyMoves {checkpoint : CSyncCheckpoint}
    (h : processSyncCheckpoint env o checkpoint n c = (b, n', c')) : OnlyMoves n n' := by
  unfold processSyncCheckpoint at h
  split at h
  · cases h
    exact ⟨hs, .refl _⟩
  · split at h
    · cases h
      exact ⟨hs, .refl _⟩
    · split at h
      · cases h
        exact ⟨hs, .refl _⟩
      · split at h
        · next hmove =>
          cases h
          exact moveToCheckpoint_onlyMoves hs hmove
        · next hmove =>
          cases h
          exact moveToCheckpoint_onlyMoves hs hmove

theorem sendSyncCheckpoint_onlyMoves (h : sendSyncCheckpoint env o hash n c = (b, n', c')) :
    OnlyMoves n n' := by
  unfold sendSyncCheckpoint at h
  split at h
  · cases h
    exact ⟨hs, .refl _⟩
  · exact processSyncCheckpoint_onlyMoves hs h

end

theorem storeBlock_step {o : AcceptOutcome} (hs : HeadsKnown s.node.chain)
    (h : storeBlock env o block s = (error, s')) :
    IndexStep s.node.chain s'.node.chain (env.blockHash block.toCBlockHeader) (error = none) := by
  unfold storeBlock at h
  split at h
  · cases h
    exact .of_sameTree hs (.refl _)
  · split at h
    · cases h
      exact .of_sameTree hs (.refl _)
    · split at h
      · next n batch hadd =>
        cases h
        obtain ⟨⟨hheads, hmem⟩, -⟩ := addToBlockIndex_step hs rfl hadd
        exact ⟨hheads, fun a ha => Or.inl ((hmem a ha).resolve_right fun hnew => by cases hnew.1)⟩
      · next n batch hadd =>
        obtain ⟨⟨hheads, hmem⟩, -⟩ := addToBlockIndex_step hs rfl hadd
        have hstep : IndexStep s.node.chain n.chain (env.blockHash block.toCBlockHeader)
            ((none : Option BlockError) = none) :=
          ⟨hheads, fun a ha => (hmem a ha).imp_right fun hnew => ⟨rfl, hnew.2⟩⟩
        split at h
        · cases h
          exact hstep
        · generalize hpending : acceptPendingSyncCheckpoint env o.pending n s.checkpoints = result
            at h
          cases h
          obtain ⟨hheads2, hsame⟩ := acceptPendingSyncCheckpoint_onlyMoves hheads hpending
          exact hstep.trans_sameTree hheads2 hsame

/-- `AcceptBlock` adds the entry of the block if it succeeds and none if it fails. -/
theorem acceptBlock_step {o : AcceptOutcome} (hs : HeadsKnown s.node.chain)
    (h : acceptBlock env o block s = (error, s')) :
    IndexStep s.node.chain s'.node.chain (env.blockHash block.toCBlockHeader) (error = none) := by
  unfold acceptBlock at h
  dsimp only at h
  split at h
  · cases h
    exact .of_sameTree hs (.refl _)
  · split at h
    · cases h
      exact .of_sameTree hs (.refl _)
    · split at h
      · cases h
        exact .of_sameTree hs (.refl _)
      · split at h
        · cases h
          exact .of_sameTree hs (.refl _)
        · split at h
          · next s1 hsync =>
            cases h
            rw [(checkAgainstSync_same hsync).1]
            exact .of_sameTree hs (.refl _)
          · next s1 hsync =>
            rw [← (checkAgainstSync_same hsync).1] at hs ⊢
            exact storeBlock_step hs h

/-! ### With a batch -/

/-- A batch that is not active is no batch. -/
theorem acceptBlockIn_inactive (hbatch : batch.fActive = false) (o : AcceptOutcome) (block : CBlock)
    (s : CheckpointNode) :
    acceptBlockIn env o block s batch =
      ((acceptBlock env o block s).1, (acceptBlock env o block s).2, batch) := by
  have hadd (s : CheckpointNode) :
      addToBlockIndex env.toNodeEnv o.chain o.nFile o.nBlockPos block s.node batch =
        ((addToBlockIndex env.toNodeEnv o.chain o.nFile o.nBlockPos block s.node .new).1,
          (addToBlockIndex env.toNodeEnv o.chain o.nFile o.nBlockPos block s.node .new).2.1,
          batch) := by
    have hnew : ¬ CChainImportBatch.new.fActive = true := Bool.false_ne_true
    have hoff : ¬ batch.fActive = true := Bool.eq_false_iff.mp hbatch
    unfold addToBlockIndex
    by_cases hknown : env.blockHash block.toCBlockHeader ∈ s.node.chain.mapBlockIndex
    · rw [if_pos hknown, if_pos hknown]
    · rw [if_neg hknown, if_neg hknown, if_neg hnew, if_neg hoff]
  have hstore (s : CheckpointNode) : storeBlockIn env o block s batch =
      ((storeBlock env o block s).1, (storeBlock env o block s).2, batch) := by
    have hpending : (batch.fActive = true ∨ o.fInitialBlockDownload .acceptPending = true) ↔
        o.fInitialBlockDownload .acceptPending = true := by
      rw [hbatch]
      exact or_iff_right Bool.false_ne_true
    rw [storeBlockIn, storeBlock, hadd]
    generalize addToBlockIndex env.toNodeEnv o.chain o.nFile o.nBlockPos block s.node .new = result
    obtain ⟨fSuccess, n, batch'⟩ := result
    cases fSuccess with
    | false => split_ifs <;> rfl
    | true =>
      dsimp only
      rw [if_congr hpending rfl rfl]
      split_ifs <;> rfl
  unfold acceptBlockIn acceptBlock
  by_cases hknown : env.blockHash block.toCBlockHeader ∈ s.node.chain.mapBlockIndex
  · rw [if_pos hknown, if_pos hknown]
  · rw [if_neg hknown, if_neg hknown]
    cases s.node.chain.entry block.hashPrevBlock with
    | none => rfl
    | some pindexPrev =>
      dsimp only
      cases firstError (contextChecks ⟨env.fTestNet, s.node.chain.nBestHeight, o.nAdjustedTime,
          o.fInitialBlockDownload .softForkTwo⟩ pindexPrev (s.node.chain.pprevs pindexPrev)
          block) with
      | some error => rfl
      | none =>
        split_ifs
        · generalize checkAgainstSync env o (env.blockHash block.toCBlockHeader)
            block.hashPrevBlock s = result
          obtain ⟨fSynced, s1⟩ := result
          cases fSynced with
          | false => rfl
          | true => exact hstore s1
        · rfl

/-- What a batch needs to be rolled back, and the heads of the chain it would be rolled back to. -/
def BatchHeads (n : Node) (batch : CChainImportBatch) : Prop :=
  ∃ s₀, UnderBatch s₀ n batch ∧ HeadsKnown s₀

theorem acceptBlockIn_underBatch {o : AcceptOutcome} {batch' : CChainImportBatch}
    (hs : HeadsKnown s.node.chain) (hbatch : BatchHeads s.node batch)
    (h : acceptBlockIn env o block s batch = (error, s', batch')) :
    HeadsKnown s'.node.chain ∧ BatchHeads s'.node batch' := by
  unfold acceptBlockIn at h
  dsimp only at h
  split at h
  · cases h
    exact ⟨hs, hbatch⟩
  · split at h
    · cases h
      exact ⟨hs, hbatch⟩
    · split at h
      · cases h
        exact ⟨hs, hbatch⟩
      · split at h
        · cases h
          exact ⟨hs, hbatch⟩
        · split at h
          · next s1 hsync =>
            cases h
            rw [(checkAgainstSync_same hsync).1]
            exact ⟨hs, hbatch⟩
          · next s1 hsync =>
            rw [← (checkAgainstSync_same hsync).1] at hs hbatch
            obtain ⟨s₀, hunder, hs₀⟩ := hbatch
            have hadded := @addToBlockIndex_underBatch env.toNodeEnv o.chain s₀ s1.node batch
              hunder o.nFile o.nBlockPos block
            unfold storeBlockIn at h
            split at h
            · cases h
              exact ⟨hs, s₀, hunder, hs₀⟩
            · split at h
              · cases h
                exact ⟨hs, s₀, hunder, hs₀⟩
              · generalize hadd : addToBlockIndex env.toNodeEnv o.chain o.nFile o.nBlockPos block
                  s1.node batch = result at h hadded
                obtain ⟨fSuccess, n, batch1⟩ := result
                have hheads := addToBlockIndex_heads hs hunder.active hadd
                cases fSuccess with
                | false =>
                  cases h
                  exact ⟨hheads, s₀, hadded, hs₀⟩
                | true =>
                  dsimp only at h
                  rw [if_pos (Or.inl hadded.active)] at h
                  cases h
                  exact ⟨hheads, s₀, hadded, hs₀⟩

end Accept

/-! ## The work queue -/

section Drain

variable {env : CheckpointEnv} {o : ProcessOutcome} {s : OrphanNode}

def NoParentKnown (s : OrphanNode) : Prop :=
  ∀ hashPrev pblock, (hashPrev, pblock) ∈ s.orphans.mapOrphanBlocksByPrev →
    hashPrev ∉ s.node.chain.mapBlockIndex

/-- What accepting some children has made of the node: `queued` are the hashes that the queue has
got, and `items` are the orphans that are left. -/
structure ChildrenDone (env : CheckpointEnv) (s s' : OrphanNode) (queued : List uint256)
    (items : List (uint256 × ℕ)) : Prop where
  heads : HeadsKnown s'.node.chain
  maps : OrphansOk env.blockHash { s'.orphans with mapOrphanBlocksByPrev := items }
  byPrev : s'.orphans.mapOrphanBlocksByPrev = s.orphans.mapOrphanBlocksByPrev
  mem : ∀ a, a ∈ s'.node.chain.mapBlockIndex → a ∈ s.node.chain.mapBlockIndex ∨ a ∈ queued

variable {hashPrev : uint256} {items : List (uint256 × ℕ)}

theorem acceptChild_done {rest : List (uint256 × ℕ)} {pblock : ℕ} (vWorkQueue : List uint256)
    (hs : HeadsKnown s.node.chain)
    (hmaps : OrphansOk env.blockHash
      { s.orphans with mapOrphanBlocksByPrev := items ++ (hashPrev, pblock) :: rest }) :
    ∃ queued s', acceptChild env o (vWorkQueue, s) pblock = some (vWorkQueue ++ queued, s') ∧
      queued.length ≤ 1 ∧ ChildrenDone env s s' queued (items ++ rest) := by
  obtain ⟨block, hheap, -, -⟩ := hmaps.byPrev hashPrev pblock (mem_append_right _ mem_cons_self)
  generalize haccept : acceptBlock env (o.accept (env.blockHash block.toCBlockHeader)) block
    s.toCheckpointNode = result
  obtain ⟨error, c⟩ := result
  obtain ⟨hheads, hmem⟩ := acceptBlock_step (s := s.toCheckpointNode) hs haccept
  refine ⟨if error.isNone then [env.blockHash block.toCBlockHeader] else [],
    { s.withCheckpointNode c with
      orphans := s.orphans.delete (env.blockHash block.toCBlockHeader) pblock }, ?_, ?_,
    hheads, hmaps.delete hheap, rfl, fun a ha => (hmem a ha).imp_right fun hnew => ?_⟩
  · unfold acceptChild
    dsimp only at hheap ⊢
    rw [hheap, bind_eq_bind, bind_some, haccept]
    cases error with
    | none => rfl
    | some error =>
      have hnone : vWorkQueue ++ (if (some error).isNone = true then
          [env.blockHash block.toCBlockHeader] else []) = vWorkQueue := append_nil _
      rw [hnone]
      rfl
  · split
    · exact le_rfl
    · exact Nat.zero_le 1
  · rw [hnew.1, hnew.2]
    exact mem_singleton_self _

theorem acceptChildren_done (children : List ℕ) (vWorkQueue : List uint256)
    (hs : HeadsKnown s.node.chain)
    (hmaps : OrphansOk env.blockHash
      { s.orphans with mapOrphanBlocksByPrev := items ++ children.map fun p => (hashPrev, p) }) :
    ∃ queued s', children.foldlM (acceptChild env o) (vWorkQueue, s) =
        some (vWorkQueue ++ queued, s') ∧
      queued.length ≤ children.length ∧ ChildrenDone env s s' queued items := by
  induction children generalizing s vWorkQueue with
  | nil =>
    refine ⟨[], s, ?_, le_rfl, hs, ?_, rfl, fun a ha => Or.inl ha⟩
    · rw [append_nil]
      rfl
    · rw [map_nil, append_nil] at hmaps
      exact hmaps
  | cons pblock children ih =>
    obtain ⟨first, s1, hfirst, hone, hdone1⟩ := acceptChild_done (o := o) vWorkQueue hs hmaps
    obtain ⟨later, s2, hlater, hlength, hdone2⟩ := ih (vWorkQueue ++ first) hdone1.heads hdone1.maps
    refine ⟨first ++ later, s2, ?_, ?_, hdone2.heads, hdone2.maps,
      hdone2.byPrev.trans hdone1.byPrev, fun a ha => ?_⟩
    · rw [foldlM_cons, hfirst, bind_eq_bind, bind_some, hlater, append_assoc]
    · rw [length_append, length_cons]
      omega
    · rcases hdone2.mem a ha with ha | ha
      · exact (hdone1.mem a ha).imp_right (mem_append_left _)
      · exact Or.inr (mem_append_right _ ha)

theorem length_children (hashPrev : uint256) (m : OrphanMaps) :
    (m.children hashPrev).length + (m.erasePrev hashPrev).mapOrphanBlocksByPrev.length =
      m.mapOrphanBlocksByPrev.length := by
  unfold children erasePrev
  have hlength := (filter_append_perm (fun item : uint256 × ℕ => item.1 = hashPrev)
    m.mapOrphanBlocksByPrev).length_eq
  simpa using hlength

theorem children_perm (hashPrev : uint256) (m : OrphanMaps) :
    ((m.erasePrev hashPrev).mapOrphanBlocksByPrev ++
      (m.children hashPrev).map fun p => (hashPrev, p)).Perm m.mapOrphanBlocksByPrev := by
  unfold children erasePrev
  have hkeys : ((m.mapOrphanBlocksByPrev.filter fun item => item.1 = hashPrev).map Prod.snd).map
      (fun p => (hashPrev, p)) = m.mapOrphanBlocksByPrev.filter fun item => item.1 = hashPrev := by
    rw [List.map_map]
    refine (map_congr_left fun item hitem => ?_).trans (List.map_id _)
    have hkey := of_decide_eq_true (mem_filter.mp hitem).2
    rw [← hkey]
    rfl
  rw [hkeys]
  have hperm := filter_append_perm (fun item : uint256 × ℕ => item.1 = hashPrev)
    m.mapOrphanBlocksByPrev
  refine perm_append_comm.trans ?_
  simpa using hperm

theorem processWorkQueue_drained {n : ℕ} (vWorkQueue : List uint256) (hs : HeadsKnown s.node.chain)
    (hmaps : OrphansOk env.blockHash s.orphans)
    (hqueue : ∀ hashPrev pblock, (hashPrev, pblock) ∈ s.orphans.mapOrphanBlocksByPrev →
      hashPrev ∈ s.node.chain.mapBlockIndex → hashPrev ∈ vWorkQueue)
    (hfuel : vWorkQueue.length + s.orphans.mapOrphanBlocksByPrev.length ≤ n) :
    ∃ s', processWorkQueue env o n vWorkQueue s = some s' ∧ HeadsKnown s'.node.chain ∧
      OrphansOk env.blockHash s'.orphans ∧ NoParentKnown s' := by
  induction n generalizing vWorkQueue s with
  | zero =>
    refine ⟨s, rfl, hs, hmaps, fun hashPrev pblock hmem => ?_⟩
    rw [length_eq_zero_iff.mp (by omega : s.orphans.mapOrphanBlocksByPrev.length = 0)] at hmem
    exact absurd hmem not_mem_nil
  | succ n ih =>
    cases vWorkQueue with
    | nil =>
      refine ⟨s, rfl, hs, hmaps, fun hashPrev pblock hmem hknown => ?_⟩
      exact absurd (hqueue hashPrev pblock hmem hknown) not_mem_nil
    | cons hashPrev vWorkQueue =>
      have hsplit := hmaps.perm (children_perm hashPrev s.orphans)
      obtain ⟨queued, s1, hfold, hlength, hdone⟩ := acceptChildren_done (o := o)
        (s.orphans.children hashPrev) vWorkQueue hs hsplit
      have herase : s1.orphans.erasePrev hashPrev = { s1.orphans with
          mapOrphanBlocksByPrev := (s.orphans.erasePrev hashPrev).mapOrphanBlocksByPrev } := by
        unfold erasePrev
        rw [hdone.byPrev]
      rw [processWorkQueue, hfold]
      have hcount := length_children hashPrev s.orphans
      refine ih (s := { s1 with orphans := s1.orphans.erasePrev hashPrev }) _ hdone.heads ?_ ?_ ?_
      · rw [herase]
        exact hdone.maps
      · intro prev pblock hmem hknown
        rw [herase] at hmem
        obtain ⟨hold, hne⟩ := mem_filter.mp hmem
        rcases hdone.mem prev hknown with hknown | hnew
        · have hwaits := hqueue prev pblock hold hknown
          rcases mem_cons.mp hwaits with heq | hwaits
          · simp [heq] at hne
          · exact mem_append_left _ hwaits
        · exact mem_append_right _ hnew
      · rw [herase, length_append]
        rw [length_cons] at hfuel
        dsimp only
        omega

/-- Without orphans the loop does nothing. -/
theorem processWorkQueue_empty (n : ℕ) (vWorkQueue : List uint256)
    (hempty : s.orphans.mapOrphanBlocksByPrev = []) :
    processWorkQueue env o n vWorkQueue s = some s := by
  induction n generalizing vWorkQueue with
  | zero => rfl
  | succ n ih =>
    cases vWorkQueue with
    | nil => rfl
    | cons hashPrev vWorkQueue =>
      have hchildren : s.orphans.children hashPrev = [] := by
        rw [children, hempty]
        rfl
      have herase : s.orphans.erasePrev hashPrev = s.orphans := by
        rw [erasePrev, hempty, filter_nil, ← hempty]
      rw [processWorkQueue, hchildren]
      change processWorkQueue env o n vWorkQueue
        { s with orphans := s.orphans.erasePrev hashPrev } = some s
      rw [herase]
      exact ih vWorkQueue

end Drain

/-! ## Runs -/

/-- What holds between two calls. A batch is open only while there are no orphans. -/
structure OrphanInv (env : CheckpointEnv) (s : OrphanNode) (batch : CChainImportBatch) : Prop where
  heads : HeadsKnown s.node.chain
  maps : OrphansOk env.blockHash s.orphans
  parents : NoParentKnown s
  batch : batch.fActive = true → s.orphans.mapOrphanBlocksByPrev = [] ∧ BatchHeads s.node batch

section Runs

variable {env : CheckpointEnv} {s s' : OrphanNode} {batch batch' : CChainImportBatch}

theorem NoParentKnown.of_sameTree {n : Node} {c : SyncCheckpoints} (h : NoParentKnown s)
    (hsame : SameTree s.node.chain n.chain) :
    NoParentKnown { s with node := n, checkpoints := c } :=
  fun hashPrev pblock hmem hknown =>
    h hashPrev pblock hmem ((SameTree.mem_iff hsame hashPrev).mp hknown)

theorem noParentKnown_of_empty (hempty : s.orphans.mapOrphanBlocksByPrev = []) :
    NoParentKnown s := by
  intro hashPrev pblock hmem
  rw [hempty] at hmem
  exact absurd hmem not_mem_nil

variable {o : ProcessOutcome}

variable {hash : uint256}

theorem processChildren_inv (hs : HeadsKnown s.node.chain)
    (hmaps : OrphansOk env.blockHash s.orphans)
    (hqueue : ∀ hashPrev pblock, (hashPrev, pblock) ∈ s.orphans.mapOrphanBlocksByPrev →
      hashPrev ∈ s.node.chain.mapBlockIndex → hashPrev = hash) :
    ∃ s', processChildren env o hash s = some s' ∧ HeadsKnown s'.node.chain ∧
      OrphansOk env.blockHash s'.orphans ∧ NoParentKnown s' := by
  obtain ⟨s1, hdrain, hheads, hmaps1, hparents⟩ := processWorkQueue_drained (o := o)
    (n := s.orphans.mapOrphanBlocksByPrev.length + 1) [hash] hs hmaps
    (fun hashPrev pblock hmem hknown =>
      mem_singleton.mpr (hqueue hashPrev pblock hmem hknown))
    (by rw [length_singleton]; omega)
  rw [processChildren, hdrain, map_some]
  refine ⟨_, rfl, ?_⟩
  split
  · generalize hsend : sendSyncCheckpoint env o.send (autoSelectSyncCheckpoint env s1.node.chain)
      s1.node s1.checkpoints = result
    obtain ⟨hheads', hsame⟩ := sendSyncCheckpoint_onlyMoves hheads hsend
    exact ⟨hheads', hmaps1, hparents.of_sameTree hsame⟩
  · exact ⟨hheads, hmaps1, hparents⟩

theorem processChildren_empty (hpeer : o.fFromPeer = false)
    (hempty : s.orphans.mapOrphanBlocksByPrev = []) :
    processChildren env o hash s = some s := by
  rw [processChildren, processWorkQueue_empty _ _ hempty, hpeer]
  rfl

theorem OrphanInv.processBlock (h : OrphanInv env s batch) (block : CBlock)
    (hpeer : batch.fActive = true → o.fFromPeer = false) :
    ∃ fSuccess s' batch', processBlockWithMaps env o block s batch =
      some (fSuccess, s', batch') ∧ OrphanInv env s' batch' := by
  unfold processBlockWithMaps
  dsimp only
  split
  · exact ⟨_, _, _, rfl, h⟩
  · split
    · exact ⟨_, _, _, rfl, h⟩
    · next hnew =>
      split
      · exact ⟨_, _, _, rfl, h⟩
      · split
        · exact ⟨_, _, _, rfl, h⟩
        · split
          · next hparent =>
            refine ⟨_, _, _, rfl, ?_⟩
            split
            · next hfrom =>
              have hoff : ¬ batch.fActive = true := fun hactive => by
                rw [hpeer hactive] at hfrom
                cases hfrom
              refine ⟨h.heads, h.maps.insert hnew, ?_, fun hactive => absurd hactive hoff⟩
              intro hashPrev pblock hmem
              rcases mem_append.mp hmem with hmem | hlast
              · exact h.parents hashPrev pblock hmem
              · cases mem_singleton.mp hlast
                exact hparent
            · exact h
          · generalize haccept :
              acceptBlockIn env (o.accept (env.blockHash block.toCBlockHeader)) block
                s.toCheckpointNode batch = result
            obtain ⟨error, c, batch1⟩ := result
            by_cases hactive : batch.fActive = true
            · obtain ⟨hempty, hbatch⟩ := h.batch hactive
              obtain ⟨hheads, hbatch1⟩ := acceptBlockIn_underBatch (s := s.toCheckpointNode) h.heads
                hbatch haccept
              have hinv : OrphanInv env (s.withCheckpointNode c) batch1 :=
                ⟨hheads, h.maps, noParentKnown_of_empty hempty, fun _ => ⟨hempty, hbatch1⟩⟩
              cases error with
              | some error => exact ⟨_, _, _, rfl, hinv⟩
              | none =>
                dsimp only
                rw [processChildren_empty (s := s.withCheckpointNode c) (hpeer hactive) hempty]
                exact ⟨_, _, _, rfl, hinv⟩
            · have hoff : batch.fActive = false := Bool.eq_false_iff.mpr hactive
              rw [acceptBlockIn_inactive hoff] at haccept
              obtain ⟨herror, hpair⟩ := Prod.mk.inj haccept
              obtain ⟨hc, rfl⟩ := Prod.mk.inj hpair
              obtain ⟨hheads, hmem⟩ := acceptBlock_step (s := s.toCheckpointNode) h.heads
                (Prod.ext herror hc)
              -- Only the accepted block is new, and its children are what the queue starts with.
              have hqueue : ∀ hashPrev pblock,
                  (hashPrev, pblock) ∈ s.orphans.mapOrphanBlocksByPrev →
                  hashPrev ∈ c.node.chain.mapBlockIndex →
                  error = none ∧ hashPrev = env.blockHash block.toCBlockHeader := by
                intro hashPrev pblock hwaits hknown
                exact (hmem hashPrev hknown).resolve_left (h.parents hashPrev pblock hwaits)
              cases error with
              | some error =>
                refine ⟨_, _, _, rfl, hheads, h.maps, fun hashPrev pblock hwaits hknown => ?_,
                  fun htrue => absurd htrue hactive⟩
                cases (hqueue hashPrev pblock hwaits hknown).1
              | none =>
                obtain ⟨s2, hchildren, hheads2, hmaps2, hparents2⟩ := processChildren_inv (o := o)
                  (s := s.withCheckpointNode c) hheads h.maps
                  fun hashPrev pblock hwaits hknown => (hqueue hashPrev pblock hwaits hknown).2
                dsimp only
                rw [hchildren]
                exact ⟨_, _, _, rfl, hheads2, hmaps2, hparents2, fun htrue => absurd htrue hactive⟩

/-- The node and the batch of an import, from a start without orphans. Blocks come from peers or,
also under a batch, from a file; a batch begins only while there are no orphans. -/
inductive OrphanRun (env : CheckpointEnv) : OrphanNode → CChainImportBatch → Prop
  | start {s : OrphanNode} (hs : HeadsKnown s.node.chain) (hempty : s.orphans = empty) :
      OrphanRun env s CChainImportBatch.new
  | processBlock {s s' : OrphanNode} {batch batch' : CChainImportBatch} {fSuccess : Bool}
      (o : ProcessOutcome) (block : CBlock) (h : OrphanRun env s batch)
      (hpeer : batch.fActive = true → o.fFromPeer = false)
      (hcall : processBlockWithMaps env o block s batch = some (fSuccess, s', batch')) :
      OrphanRun env s' batch'
  | processSyncCheckpoint {s : OrphanNode} {batch : CChainImportBatch} (o : CheckpointOutcome)
      (checkpoint : CSyncCheckpoint) (h : OrphanRun env s batch) (hbatch : batch.fActive = false) :
      OrphanRun env { s with
        node := (Program.processSyncCheckpoint env o checkpoint s.node s.checkpoints).2.1
        checkpoints := (Program.processSyncCheckpoint env o checkpoint s.node s.checkpoints).2.2 }
        batch
  | beginBatch {s : OrphanNode} {batch : CChainImportBatch} (ok : Bool) (h : OrphanRun env s batch)
      (hempty : s.orphans.mapOrphanBlocksByPrev = []) :
      OrphanRun env { s with node := (batch.beginBatch ok s.node).2.1 }
        (batch.beginBatch ok s.node).2.2
  | addBytes {s : OrphanNode} {batch : CChainImportBatch} (nBlockBytes : ℕ)
      (h : OrphanRun env s batch) : OrphanRun env s (batch.addBytes nBlockBytes)
  | commitBatch {s : OrphanNode} {batch : CChainImportBatch} (ok : Bool)
      (h : OrphanRun env s batch) :
      OrphanRun env { s with node := (batch.commitBatch ok s.node).2.1 }
        (batch.commitBatch ok s.node).2.2
  | abortBatch {s : OrphanNode} {batch : CChainImportBatch} (h : OrphanRun env s batch) :
      OrphanRun env { s with node := (batch.abortBatch s.node).1 } (batch.abortBatch s.node).2

theorem HeadsKnown.restored {s₀ s : ChainState} (hs : HeadsKnown s₀) (h : Restored s₀ s) :
    HeadsKnown s :=
  hs.congr (sameTree_of_mapBlockIndex h.mapBlockIndex) h.pindexBest h.hashBestChain
    h.pindexGenesisBlock

theorem OrphanInv.beginBatch {ok : Bool} (h : OrphanInv env s batch)
    (hempty : s.orphans.mapOrphanBlocksByPrev = []) :
    OrphanInv env { s with node := (batch.beginBatch ok s.node).2.1 }
      (batch.beginBatch ok s.node).2.2 := by
  generalize hbegin : batch.beginBatch ok s.node = result
  obtain ⟨fBegun, n, batch'⟩ := result
  cases fBegun with
  | true =>
    have hunder := beginBatch_underBatch hbegin
    have hchain : n.chain = s.node.chain := by
      unfold CChainImportBatch.beginBatch at hbegin
      split at hbegin
      · cases hbegin
      · split at hbegin
        · cases hbegin
        · cases hbegin
          rfl
    refine ⟨hchain ▸ h.heads, h.maps, noParentKnown_of_empty hempty, fun _ => ⟨hempty, ?_⟩⟩
    exact ⟨s.node.chain, hunder, h.heads⟩
  | false =>
    have hsame : n = s.node ∧ batch' = batch := by
      unfold CChainImportBatch.beginBatch at hbegin
      split at hbegin
      · cases hbegin
        exact ⟨rfl, rfl⟩
      · split at hbegin
        · cases hbegin
          exact ⟨rfl, rfl⟩
        · cases hbegin
    obtain ⟨rfl, rfl⟩ := hsame
    exact h

theorem OrphanInv.commitBatch {ok : Bool} (h : OrphanInv env s batch) :
    OrphanInv env { s with node := (batch.commitBatch ok s.node).2.1 }
      (batch.commitBatch ok s.node).2.2 := by
  by_cases hactive : batch.fActive = true
  · obtain ⟨hempty, s₀, hunder, hs₀⟩ := h.batch hactive
    have hrestored := @commitBatch_restored s₀ ok s.node batch hs₀.bestIsEntry hunder
    rw [CChainImportBatch.commitBatch, if_neg (not_not.mpr hactive)] at hrestored ⊢
    generalize hcommit : s.node.txdb.txnCommit ok = result at hrestored
    obtain ⟨fCommitted, txdb⟩ := result
    cases fCommitted with
    | false =>
      refine ⟨hs₀.restored (hrestored rfl), h.maps, noParentKnown_of_empty hempty, ?_⟩
      intro htrue
      cases htrue
    | true =>
      refine ⟨h.heads.congr (sameTree_of_mapBlockIndex rfl) rfl rfl rfl, h.maps,
        noParentKnown_of_empty hempty, ?_⟩
      intro htrue
      cases htrue
  · rw [CChainImportBatch.commitBatch, if_pos hactive]
    exact h

theorem OrphanInv.abortBatch (h : OrphanInv env s batch) :
    OrphanInv env { s with node := (batch.abortBatch s.node).1 } (batch.abortBatch s.node).2 := by
  by_cases hactive : batch.fActive = true
  · obtain ⟨hempty, s₀, hunder, hs₀⟩ := h.batch hactive
    have hrestored := abortBatch_restored hs₀.bestIsEntry hunder
    refine ⟨hs₀.restored hrestored, h.maps, noParentKnown_of_empty hempty, ?_⟩
    rw [CChainImportBatch.abortBatch, if_neg (not_not.mpr hactive)]
    intro htrue
    cases htrue
  · rw [CChainImportBatch.abortBatch, if_pos hactive]
    exact h

theorem OrphanRun.inv (h : OrphanRun env s batch) : OrphanInv env s batch := by
  induction h with
  | start hs hempty =>
    refine ⟨hs, hempty ▸ orphansOk_empty, noParentKnown_of_empty (hempty ▸ rfl), ?_⟩
    intro htrue
    cases htrue
  | processBlock o block _ hpeer hcall ih =>
    obtain ⟨fSuccess, s', batch', hresult, hinv⟩ := ih.processBlock block hpeer
    rw [hcall] at hresult
    cases hresult
    exact hinv
  | @processSyncCheckpoint s batch o checkpoint _ hbatch ih =>
    generalize hcall : Program.processSyncCheckpoint env o checkpoint s.node s.checkpoints = result
    obtain ⟨hheads, hsame⟩ := processSyncCheckpoint_onlyMoves ih.heads hcall
    exact ⟨hheads, ih.maps, ih.parents.of_sameTree hsame,
      fun htrue => absurd htrue (Bool.eq_false_iff.mp hbatch)⟩
  | beginBatch ok _ hempty ih => exact ih.beginBatch hempty
  | addBytes nBlockBytes _ ih =>
    refine ⟨ih.heads, ih.maps, ih.parents, fun hactive => ?_⟩
    obtain ⟨hempty, s₀, hunder, hs₀⟩ := ih.batch hactive
    exact ⟨hempty, s₀, @batchCall_underBatch env.toNodeEnv s₀ (_, _) hunder
      (.addBytes nBlockBytes), hs₀⟩
  | commitBatch ok _ ih => exact ih.commitBatch
  | abortBatch _ ih => exact ih.abortBatch

/-- **Orphan blocks.** The two maps hold the same blocks, no orphan waits for a block of the index,
and no call follows a pointer to a deleted block. -/
theorem orphanBlocks_consistent (h : OrphanRun env s batch) :
    OrphansOk env.blockHash s.orphans ∧ NoParentKnown s ∧
      ∀ o block, (batch.fActive = true → o.fFromPeer = false) →
        (processBlockWithMaps env o block s batch).isSome := by
  refine ⟨h.inv.maps, h.inv.parents, fun o block hpeer => ?_⟩
  obtain ⟨fSuccess, s', batch', hresult, -⟩ := h.inv.processBlock block hpeer
  rw [hresult]
  rfl

end Runs

namespace SampleCrossing

def orphanStart : OrphanNode := ⟨start.node, start.checkpoints, "", OrphanMaps.empty⟩

def orphanOutcome : ProcessOutcome where
  nAdjustedTime := 1383943822
  accept hash :=
    { nAdjustedTime := 1383943822
      nBlockPos := if hash = hashOf 1 then 1 else hash - 1
      chain := { nAdjustedTime := 1383943822 } }

/-- Block `i` comes from a peer. -/
def arrive (state : OrphanNode × CChainImportBatch) (i : ℕ) : OrphanNode × CChainImportBatch :=
  ((processBlockWithMaps env orphanOutcome (block i) state.1 state.2).map Prod.snd).getD state

/-- The children come before their parents. -/
def arrived : OrphanNode × CChainImportBatch := [3, 4, 1].foldl arrive (orphanStart, .new)

theorem orphanRun_arrive {state : OrphanNode × CChainImportBatch}
    (h : OrphanRun env state.1 state.2) (hbatch : state.2.fActive = false) (i : ℕ) :
    OrphanRun env (arrive state i).1 (arrive state i).2 := by
  have hoff : state.2.fActive = true → orphanOutcome.fFromPeer = false := by
    intro hactive
    rw [hbatch] at hactive
    cases hactive
  obtain ⟨fSuccess, s', batch', hresult, -⟩ := h.inv.processBlock (block i) hoff
  rw [arrive, hresult]
  exact .processBlock orphanOutcome (block i) h hoff hresult

theorem headsKnown_start : HeadsKnown orphanStart.node.chain := by
  refine ⟨⟨rfl, by decide⟩, fun g hg => ?_⟩
  cases hg
  decide

end SampleCrossing

open SampleCrossing in
theorem orphanBlocks_consistent_sampleCrossing :
    hashOf 4 ∈ arrived.1.node.chain.mapBlockIndex ∧
      arrived.1.orphans.mapOrphanBlocksByPrev = [] ∧
      OrphansOk env.blockHash arrived.1.orphans ∧ NoParentKnown arrived.1 := by
  have h0 : OrphanRun env orphanStart .new := .start headsKnown_start rfl
  have h1 := @orphanRun_arrive (orphanStart, .new) h0 rfl 3
  have h2 := orphanRun_arrive h1 (by decide) 4
  have h3 : OrphanRun env arrived.1 arrived.2 := orphanRun_arrive h2 (by decide) 1
  have hconsistent := orphanBlocks_consistent h3
  exact ⟨by decide, by decide, hconsistent.1, hconsistent.2.1⟩

end Phoenixcoin.Analysis
