import Phoenixcoin.Analysis.AtomicAdd
import Phoenixcoin.Program.AcceptBlock

/-!
# Forward links after any call

Operations of the chain code may fail, and a postponed block may stay unconnected while the tip
moves on. What survives all of this: the index is a tree that only grows, and a forward link
never leaves the way down to the best block.
-/

set_option autoImplicit false

namespace Phoenixcoin.Analysis

open Lib Program Model ChainState

/-! ## Sound chains -/

def ParentUnique (env : NodeEnv) (block : CBlock) : Prop :=
  ∀ nFile nBlockPos block', env.blockFileBlock nFile nBlockPos = some block' →
    env.blockHash block'.toCBlockHeader = env.blockHash block.toCBlockHeader →
    block'.hashPrevBlock = block.hashPrevBlock

structure ChainSound (env : NodeEnv) (s : ChainState) : Prop where
  tree : TreeOk s
  best : ∀ t, s.pindexBest = some t → t = s.hashBestChain ∧ t ∈ s.mapBlockIndex
  genesis : ∃ g, s.pindexGenesisBlock = some g ∧ g ∈ s.mapBlockIndex
  links : LinkedWithin s.pprev s.pnext s.pindexBest
  parents : ∀ h p, s.pprev h = some p → ∀ nFile nBlockPos block,
    env.blockFileBlock nFile nBlockPos = some block →
    env.blockHash block.toCBlockHeader = h → block.hashPrevBlock = p

/-- The index has grown: old entries are still there and have their parents. -/
structure Grown (s s' : ChainState) : Prop where
  mem : ∀ h, h ∈ s.mapBlockIndex → h ∈ s'.mapBlockIndex
  pprev : ∀ a p, s.pprev a = some p → s'.pprev a = some p

section Sound

variable {env : NodeEnv} {s s' s'' : ChainState}

variable {h : uint256}

theorem mem_iff_entry : h ∈ s.mapBlockIndex ↔ ∃ e, s.entry h = some e :=
  Finmap.mem_iff

theorem Grown.refl (s : ChainState) : Grown s s := ⟨fun _ h => h, fun _ _ h => h⟩

theorem Grown.trans (h : Grown s s') (h' : Grown s' s'') : Grown s s'' :=
  ⟨fun a ha => h'.mem a (h.mem a ha), fun a p hp => h'.pprev a p (h.pprev a p hp)⟩

theorem Grown.above (h : Grown s s') {a b : uint256} (hab : Above s.pprev a b) :
    Above s'.pprev a b := hab.mono h.pprev

theorem Grown.of_sameTree (h : SameTree s s') : Grown s s' := by
  refine ⟨fun a ha => ?_, fun a p hp => h.pprev.symm ▸ hp⟩
  obtain ⟨e, he⟩ := mem_iff_entry.mp ha
  obtain ⟨next, he'⟩ := h.entry he
  exact mem_iff_entry.mpr ⟨_, he'⟩

theorem sameTree_of_mapBlockIndex (h : s'.mapBlockIndex = s.mapBlockIndex) : SameTree s s' := by
  intro a
  rw [ChainState.entry, h]
  rfl

/-- The other globals do not matter. -/
theorem ChainSound.congr (hs : ChainSound env s) (hmap : s'.mapBlockIndex = s.mapBlockIndex)
    (hhash : s'.hashBestChain = s.hashBestChain) (hbest : s'.pindexBest = s.pindexBest)
    (hgenesis : s'.pindexGenesisBlock = s.pindexGenesisBlock) : ChainSound env s' := by
  have hpprev : s'.pprev = s.pprev := (sameTree_of_mapBlockIndex hmap).pprev
  have hpnext : s'.pnext = s.pnext := by
    funext a
    rw [ChainState.pnext, ChainState.entry, hmap]
    rfl
  refine ⟨hs.tree.of_sameTree (sameTree_of_mapBlockIndex hmap), ?_, ?_, ?_, ?_⟩
  · rw [hbest, hhash, hmap]
    exact hs.best
  · rw [hgenesis, hmap]
    exact hs.genesis
  · rw [hpprev, hpnext, hbest]
    exact hs.links
  · rw [hpprev]
    exact hs.parents

theorem ChainSound.of_isInMainChain (hs : ChainSound env s) (hmain : s.isInMainChain h = true) :
    ∃ t, s.pindexBest = some t ∧ Above s.pprev t h := by
  rw [isInMainChain, Bool.or_eq_true, Option.isSome_iff_exists, decide_eq_true_eq] at hmain
  rcases hmain with ⟨b, hb⟩ | hbest
  · exact hs.links.above hb
  · exact ⟨h, hbest, .refl⟩

end Sound

/-! ## Changing the best chain -/

/-- The tree is the same and the forward links stay on the way to `tip`. -/
structure LinksMoved (s s' : ChainState) (tip : uint256) : Prop where
  tree : SameTree s s'
  genesis : s'.pindexGenesisBlock = s.pindexGenesisBlock
  links : LinkedWithin s'.pprev s'.pnext (some tip)

variable {s s' : ChainState} {t : uint256}

theorem LinksMoved.trans {s'' : ChainState} {t' : uint256} (h : LinksMoved s s' t)
    (h' : LinksMoved s' s'' t') : LinksMoved s s'' t' :=
  ⟨h.tree.trans h'.tree, h'.genesis.trans h.genesis, h'.links⟩

theorem LinksMoved.addUpdates (h : LinksMoved s s' t) (n : ℕ) :
    LinksMoved s (s'.addUpdates n) t := ⟨h.tree, h.genesis, h.links⟩

section Moves

variable {s : ChainState} {t t' f p : uint256} {l : List uint256}

theorem linksMoved_unlink (hs : TreeOk s) (hlinks : LinkedWithin s.pprev s.pnext (some t))
    (hp : s.pprev t = some p) : LinksMoved s (s.unlink t) p := by
  refine ⟨sameTree_unlink s t, pindexGenesisBlock_unlink s t, ?_⟩
  obtain ⟨pe, hpe⟩ := hs.pprev_entry hp
  rw [(sameTree_unlink s t).pprev, unlink_eq hp, pnext_setPnext hpe]
  exact hlinks.pop hp

theorem linksMoved_link (hs : TreeOk s) {tip : Option uint256}
    (hlinks : LinkedWithin s.pprev s.pnext tip) (htip : ∀ x, tip = some x → x = p)
    (hp : s.pprev t' = some p) : LinksMoved s (s.link t') t' := by
  refine ⟨sameTree_link s t', pindexGenesisBlock_link s t', ?_⟩
  obtain ⟨pe, hpe⟩ := hs.pprev_entry hp
  rw [(sameTree_link s t').pprev, link_eq hp, pnext_setPnext hpe]
  exact hlinks.push htip hp

theorem linksMoved_unlinkBranch (hs : TreeOk s)
    (hlinks : LinkedWithin s.pprev s.pnext (some t)) (hpath : Path s.pprev t l f) :
    LinksMoved s (l.foldl unlink s) f := by
  induction l generalizing s t with
  | nil =>
    cases hpath
    exact ⟨.refl s, rfl, hlinks⟩
  | cons a l ih =>
    cases hpath with
    | cons hp hrest =>
      have hstep := linksMoved_unlink hs hlinks hp
      rw [← hstep.tree.pprev] at hrest
      exact hstep.trans (ih (hs.of_sameTree hstep.tree) hstep.links hrest)

theorem linksMoved_linkBranch (hs : TreeOk s)
    (hlinks : LinkedWithin s.pprev s.pnext (some f)) (hpath : Descent s.pprev f l t) :
    LinksMoved s (l.foldl link s) t := by
  induction l generalizing s f with
  | nil =>
    cases hpath
    exact ⟨.refl s, rfl, hlinks⟩
  | cons a l ih =>
    cases hpath with
    | cons hp hrest =>
      have hstep := linksMoved_link hs hlinks (fun x hx => (Option.some.inj hx).symm) hp
      rw [← hstep.tree.pprev] at hrest
      exact hstep.trans (ih (hs.of_sameTree hstep.tree) hstep.links hrest)

end Moves

section Best

variable {env : NodeEnv} {o : ChainOutcome} {n n' : Node} {h : uint256} {block : CBlock}

def KeepsChain (n n' : Node) : Prop :=
  ∃ bnWork, n'.chain = { n.chain with bnBestInvalidWork := bnWork }

theorem KeepsChain.refl (h : n'.chain = n.chain) : KeepsChain n n' :=
  ⟨n.chain.bnBestInvalidWork, h⟩

variable {s : ChainState} {tip : uint256} {fDeferCommit : Bool}

theorem KeepsChain.linksMoved (hkeeps : KeepsChain n n') (hmoved : LinksMoved s n.chain tip) :
    LinksMoved s n'.chain tip := by
  obtain ⟨bnWork, hchain⟩ := hkeeps
  rw [hchain]
  exact ⟨hmoved.tree, hmoved.genesis, hmoved.links⟩

theorem invalidChainFound_keeps (pindexNew : uint256) (n : Node) :
    KeepsChain n (invalidChainFound o pindexNew n) := by
  unfold invalidChainFound
  dsimp only
  split
  · exact ⟨_, rfl⟩
  · exact .refl rfl

theorem setBestChainInner_refused
    (hret : setBestChainInner env o fDeferCommit n h block = (false, n')) : KeepsChain n n' := by
  unfold setBestChainInner at hret
  dsimp only at hret
  split at hret
  · cases hret
    exact invalidChainFound_keeps h { n with txdb := n.txdb.txnAbort }
  · split at hret
    · cases hret
      exact .refl rfl
    · split at hret
      · cases hret
        exact .refl rfl
      · cases hret

theorem setBestChainInner_accepted
    (hret : setBestChainInner env o fDeferCommit n h block = (true, n')) :
    ∃ p, n.chain.pprev h = some p ∧ n'.chain = (n.chain.link h).addUpdates (o.nPoolUpdates h) := by
  unfold setBestChainInner at hret
  dsimp only at hret
  split at hret
  · cases hret
  · split at hret
    · cases hret
    · split at hret
      · cases hret
      · next p hp =>
        cases hret
        exact ⟨p, hp, rfl⟩

theorem reorganize_linksMoved (hs : ChainSound env n.chain)
    (hret : reorganize env o n h = some n') : LinksMoved n.chain n'.chain h := by
  obtain ⟨t, f, vDisconnect, vConnect, ht, hdisconnect, hconnect, -, hchain⟩ :=
    reorganize_cases hret
  have hunlink := linksMoved_unlinkBranch hs.tree (ht ▸ hs.links) hdisconnect
  have hlink := linksMoved_linkBranch (hs.tree.of_sameTree hunlink.tree) hunlink.links
    (hunlink.tree.pprev.symm ▸ hconnect)
  rw [hchain]
  exact (hunlink.trans hlink).addUpdates _

/-- Wherever the loop over the postponed blocks stops, the links lead no further than its last
block. -/
theorem connectSecondary_linksMoved {s : ChainState} (hs : TreeOk s) {l : List uint256}
    {tip last : uint256} (hmoved : LinksMoved s n.chain tip)
    (hpath : Descent s.pprev tip l last) :
    ∃ tip', LinksMoved s (connectSecondary env o l n).chain tip' ∧ Above s.pprev last tip' := by
  induction l generalizing n tip with
  | nil =>
    cases hpath
    exact ⟨_, hmoved, .refl⟩
  | cons a l ih =>
    have hlast := hpath.above
    cases hpath with
    | cons hp hrest =>
      rw [connectSecondary]
      split
      · exact ⟨tip, hmoved, hlast⟩
      · split
        · exact ⟨tip, hmoved, hlast⟩
        · next txdb _ =>
          split
          · next hret => exact ⟨tip, (setBestChainInner_refused hret).linksMoved hmoved, hlast⟩
          · next hret =>
            obtain ⟨p, -, hchain⟩ := setBestChainInner_accepted hret
            have hp' : n.chain.pprev a = some tip := hmoved.tree.pprev ▸ hp
            have hlink := linksMoved_link (hs.of_sameTree hmoved.tree) hmoved.links
              (fun x hx => (Option.some.inj hx).symm) hp'
            refine ih ?_ hrest
            rw [hchain]
            exact (hmoved.trans hlink).addUpdates _

/-- The assignments at the end of `SetBestChain` leave a sound chain. -/
theorem LinksMoved.newBestBlock (hmoved : LinksMoved s n.chain tip) (hs : ChainSound env s)
    (hmem : h ∈ s.mapBlockIndex) (htip : Above s.pprev h tip) :
    ChainSound env (newBestBlock o h h n).chain := by
  have hgrown := Grown.of_sameTree hmoved.tree
  obtain ⟨g, hg, hgmem⟩ := hs.genesis
  refine ⟨hs.tree.of_sameTree hmoved.tree, fun t ht => ?_,
    ⟨g, hmoved.genesis.trans hg, hgrown.mem g hgmem⟩,
    hmoved.links.descend (hgrown.above htip), fun a p hp => ?_⟩
  · cases ht
    exact ⟨rfl, hgrown.mem h hmem⟩
  · exact hs.parents a p (hmoved.tree.pprev ▸ hp)

/-- **A new best block.** Whatever happens to postponed blocks, a successful `SetBestChain` leaves
a sound chain with the new best block. -/
theorem setBestChain_sound {fTxnActive fDeferCommit : Bool} (hs : ChainSound env n.chain)
    (hmem : h ∈ n.chain.mapBlockIndex) (hhash : env.blockHash block.toCBlockHeader = h)
    (hprev : ∀ p, n.chain.pprev h = some p → block.hashPrevBlock = p)
    (hret : setBestChain env o fTxnActive fDeferCommit n h block = (true, n')) :
    ChainSound env n'.chain ∧ SameTree n.chain n'.chain ∧ n'.chain.pindexBest = some h := by
  obtain ⟨txdb, n1, -, hstep, rfl⟩ := setBestChain_step hret
  rw [hhash]
  cases hstep with
  | genesis txdb1 txdb2 hfirst =>
    obtain ⟨g, hg, -⟩ := hs.genesis
    cases hg.symm.trans hfirst
  | extend p txdb1 txdb2 txdb3 hbestPrev hp =>
    have htip : ∀ x, n.chain.pindexBest = some x → x = p := fun x hx =>
      (hs.best x hx).1.trans (hbestPrev.symm.trans (hprev p hp))
    have hmoved := (linksMoved_link hs.tree hs.links htip hp).addUpdates (o.nPoolUpdates h)
    exact ⟨LinksMoved.newBestBlock hmoved hs hmem .refl, hmoved.tree, rfl⟩
  | switch t n2 hdefer hbest hreorganize =>
    have hmoved := @reorganize_linksMoved env o { n with txdb := txdb } n2 _ hs hreorganize
    have hpath : Path n.chain.pprev h (postponed n.chain t h).1 (postponed n.chain t h).2 :=
      postpone_path _ _ _
    obtain ⟨tip, hend, habove⟩ :=
      @connectSecondary_linksMoved env o _ _ hs.tree _ _ _ hmoved hpath.reverse
    exact ⟨LinksMoved.newBestBlock hend hs hmem habove, hend.tree, rfl⟩

theorem changeBestChain_refused {fDeferCommit : Bool}
    (hret : changeBestChain env o fDeferCommit n h block = (false, n')) : KeepsChain n n' := by
  unfold changeBestChain setGenesisBlock switchBranch at hret
  dsimp only at hret
  split at hret
  · split at hret
    · cases hret
      exact .refl rfl
    · split at hret
      · cases hret
        exact .refl rfl
      · cases hret
  · split at hret
    · exact setBestChainInner_refused hret
    · split at hret
      · cases hret
        exact .refl rfl
      · split at hret
        · cases hret
          exact .refl rfl
        · split at hret
          · cases hret
            exact invalidChainFound_keeps h { n with txdb := n.txdb.txnAbort }
          · cases hret

/-- A call that fails leaves the chain in memory alone. -/
theorem setBestChain_refused {fTxnActive fDeferCommit : Bool}
    (hret : setBestChain env o fTxnActive fDeferCommit n h block = (false, n')) :
    KeepsChain n n' := by
  unfold setBestChain at hret
  split at hret
  · cases hret
    exact .refl rfl
  · next txdb hbegin =>
    split at hret
    · next hchange =>
      cases hret
      exact @changeBestChain_refused env o { n with txdb := txdb } n' h block _ hchange
    · cases hret

end Best

/-! ## Adding a block -/

section Add

variable {env : NodeEnv} {o : ChainOutcome} {n n' : Node} {h : uint256} {e : CBlockIndex}
  {block : CBlock}

structure NewChild (env : NodeEnv) (s : ChainState) (h : uint256) (e : CBlockIndex)
    (block : CBlock) : Prop where
  fresh : s.entry h = none
  key : e.phashBlock = some h
  pnext : e.pnext = none
  pprev : e.pprev = some block.hashPrevBlock
  height : ∃ pe, s.entry block.hashPrevBlock = some pe ∧ e.nHeight = pe.nHeight + 1
  hash : env.blockHash block.toCBlockHeader = h
  unique : ParentUnique env block

variable {s : ChainState}

variable {nBlockPos nFile : ℕ} {txdb : CTxDB} {b : Bool}

theorem newBlockIndex_newChild (hhash : env.blockHash block.toCBlockHeader = h)
    (hfresh : h ∉ s.mapBlockIndex) (hparent : block.hashPrevBlock ∈ s.mapBlockIndex)
    (hunique : ParentUnique env block) :
    NewChild env s h (newBlockIndex s h nFile nBlockPos block) block := by
  obtain ⟨pe, hpe⟩ := mem_iff_entry.mp hparent
  have hne : block.hashPrevBlock ≠ h := fun heq => hfresh (heq ▸ hparent)
  rw [newBlockIndex_child hne hpe]
  exact ⟨Finmap.lookup_eq_none.mpr hfresh, rfl, rfl, rfl, ⟨pe, hpe, rfl⟩, hhash, hunique⟩

theorem ChainSound.pointersValid (hs : ChainSound env s) : PointersValid s := by
  refine ⟨fun t ht => (hs.best t ht).2, fun g hg => ?_, fun a b hab => ?_⟩
  · obtain ⟨g', hg', hmem⟩ := hs.genesis
    cases hg.symm.trans hg'
    exact hmem
  · obtain ⟨he, hb, -⟩ := pprev_eq_some.mp (hs.links a b hab).1
    exact mem_iff_entry.mpr ⟨he, hb⟩

theorem grown_insertEntry (hfresh : s.entry h = none) : Grown s (insertEntry s h e) := by
  refine ⟨fun a ha => ?_, fun a p hp => ?_⟩
  · obtain ⟨ae, hae⟩ := mem_iff_entry.mp ha
    exact mem_iff_entry.mpr ⟨ae, entry_insertEntry_of_some hfresh hae⟩
  · obtain ⟨ae, hae, hpe⟩ := pprev_eq_some.mp hp
    exact pprev_eq_some.mpr ⟨ae, entry_insertEntry_of_some hfresh hae, hpe⟩

theorem ChainSound.insertEntry (hs : ChainSound env s) (hchild : NewChild env s h e block) :
    ChainSound env (insertEntry s h e) := by
  have hgrown : Grown s (Analysis.insertEntry s h e) := grown_insertEntry hchild.fresh
  obtain ⟨g, hg, hgmem⟩ := hs.genesis
  refine ⟨⟨fun a ae ha => ?_, fun a ae p ha hp => ?_, fun a ae ha hp => ?_⟩,
    fun t ht => ⟨(hs.best t ht).1, hgrown.mem t (hs.best t ht).2⟩, ⟨g, hg, hgrown.mem g hgmem⟩,
    ?_, fun a p hp => ?_⟩
  · rcases entry_insertEntry_cases ha with ⟨rfl, rfl⟩ | ha
    · exact hchild.key
    · exact hs.tree.key a ae ha
  · rcases entry_insertEntry_cases ha with ⟨rfl, rfl⟩ | ha
    · cases hchild.pprev.symm.trans hp
      obtain ⟨pe, hpe, hheight⟩ := hchild.height
      exact ⟨pe, entry_insertEntry_of_some hchild.fresh hpe, hheight⟩
    · obtain ⟨pe, hpe, hheight⟩ := hs.tree.parent a ae p ha hp
      exact ⟨pe, entry_insertEntry_of_some hchild.fresh hpe, hheight⟩
  · rcases entry_insertEntry_cases ha with ⟨rfl, rfl⟩ | ha
    · cases hchild.pprev.symm.trans hp
    · exact hs.tree.root a ae ha hp
  · rw [pnext_insertEntry hchild.fresh hchild.pnext]
    refine hs.links.leaf (fun a ha => pprev_insertEntry s ha)
      (hs.tree.pprev_ne_fresh hchild.fresh) fun hbest => ?_
    obtain ⟨be, hbe⟩ := mem_iff_entry.mp (hs.best h hbest).2
    cases hchild.fresh.symm.trans hbe
  · intro nFile nBlockPos block' hfile hhash
    obtain ⟨ae, hae, hpe⟩ := pprev_eq_some.mp hp
    rcases entry_insertEntry_cases hae with ⟨rfl, rfl⟩ | hae
    · cases hchild.pprev.symm.trans hpe
      exact hchild.unique nFile nBlockPos block' hfile (hhash.trans hchild.hash.symm)
    · exact hs.parents a p (pprev_eq_some.mpr ⟨ae, hae, hpe⟩) nFile nBlockPos block' hfile hhash

structure BlockAdded (env : NodeEnv) (s s' : ChainState) (h : uint256) (block : CBlock) :
    Prop where
  sound : ChainSound env s'
  grown : Grown s s'
  best : s'.pindexBest = s.pindexBest ∨
    s'.pindexBest = some h ∧ s'.pprev h = some block.hashPrevBlock

/-- The other globals do not matter. -/
theorem BlockAdded.congr {s' s'' : ChainState} (hadded : BlockAdded env s s' h block)
    (hmap : s''.mapBlockIndex = s'.mapBlockIndex) (hhash : s''.hashBestChain = s'.hashBestChain)
    (hbest : s''.pindexBest = s'.pindexBest)
    (hgenesis : s''.pindexGenesisBlock = s'.pindexGenesisBlock) :
    BlockAdded env s s'' h block := by
  refine ⟨hadded.sound.congr hmap hhash hbest hgenesis,
    hadded.grown.trans (.of_sameTree (sameTree_of_mapBlockIndex hmap)), ?_⟩
  rw [hbest, (sameTree_of_mapBlockIndex hmap).pprev]
  exact hadded.best

theorem writeNewBlock_refused {fBatch : Bool}
    (hret : writeNewBlock env o fBatch n h e block = (false, n')) : KeepsChain n n' := by
  unfold writeNewBlock at hret
  split at hret
  · cases hret
    exact .refl rfl
  · next txdb hwrite =>
    dsimp only at hret
    split at hret
    · exact @setBestChain_refused env o { n with txdb := txdb } n' h block _ _ hret
    · obtain ⟨-, rfl⟩ := Prod.mk.inj hret
      exact .refl rfl

theorem writeNewBlock_added (hs : ChainSound env s) (hchild : NewChild env s h e block)
    (hret : writeNewBlock env o false ⟨insertEntry s h e, txdb⟩ h e block = (true, n')) :
    BlockAdded env s n'.chain h block := by
  have hsound := hs.insertEntry hchild
  have hgrown : Grown s (insertEntry s h e) := grown_insertEntry hchild.fresh
  have hpprev : (insertEntry s h e).pprev h = some block.hashPrevBlock :=
    (pprev_insertEntry_self s).trans hchild.pprev
  unfold writeNewBlock at hret
  split at hret
  · cases hret
  · next txdb' hwrite =>
    dsimp only at hret
    split at hret
    · have hmem : h ∈ (insertEntry s h e).mapBlockIndex :=
        mem_iff_entry.mpr ⟨e, entry_insertEntry_self s⟩
      obtain ⟨hsound', htree, hbest⟩ :=
        @setBestChain_sound env o ⟨insertEntry s h e, txdb'⟩ n' h block _ _ hsound hmem hchild.hash
          (fun p hp => Option.some.inj (hpprev.symm.trans hp)) hret
      exact ⟨hsound', hgrown.trans (.of_sameTree htree), .inr ⟨hbest, htree.pprev ▸ hpprev⟩⟩
    · obtain ⟨-, rfl⟩ := Prod.mk.inj hret
      exact ⟨hsound, hgrown, .inl rfl⟩

theorem addAlone_added (hs : ChainSound env s) (hchild : NewChild env s h e block)
    (hret : addAlone env o ⟨insertEntry s h e, txdb⟩ h e block = (b, n')) :
    BlockAdded env s n'.chain h block := by
  have hfresh : h ∉ s.mapBlockIndex := Finmap.lookup_eq_none.mp hchild.fresh
  have hback : ∀ bnWork, BlockAdded env s
      (rollbackBlockIndexEntry { insertEntry s h e with bnBestInvalidWork := bnWork } h) h
      block := by
    intro bnWork
    have hs' : ChainSound env { s with bnBestInvalidWork := bnWork } := hs.congr rfl rfl rfl rfl
    obtain ⟨pindex, hchain⟩ :=
      rollbackBlockIndexEntry_insertEntry hs'.pointersValid hfresh hchild.pnext
    change rollbackBlockIndexEntry { insertEntry s h e with bnBestInvalidWork := bnWork } h = _
      at hchain
    rw [hchain]
    exact ⟨hs.congr rfl rfl rfl rfl, .of_sameTree (sameTree_of_mapBlockIndex rfl), .inl rfl⟩
  unfold addAlone at hret
  split at hret
  · cases hret
    exact hback s.bnBestInvalidWork
  · next txdb' hbegin =>
    split at hret
    · next n1 hwrite =>
      cases hret
      obtain ⟨bnWork, hchain⟩ := writeNewBlock_refused hwrite
      rw [hchain]
      exact hback bnWork
    · next n1 hwrite =>
      cases hret
      have hadded := writeNewBlock_added hs hchild hwrite
      split
      · exact hadded.congr rfl rfl rfl rfl
      · exact hadded

/-- **Adding a block.** Whether it succeeds or not, `AddToBlockIndex` keeps the chain sound. -/
theorem addToBlockIndex_added {batch batch' : CChainImportBatch} (hs : ChainSound env n.chain)
    (hhash : env.blockHash block.toCBlockHeader = h) (hfresh : h ∉ n.chain.mapBlockIndex)
    (hparent : block.hashPrevBlock ∈ n.chain.mapBlockIndex) (hunique : ParentUnique env block)
    (hbatch : batch.fActive = false)
    (hret : addToBlockIndex env o nFile nBlockPos block n batch = (b, n', batch')) :
    BlockAdded env n.chain n'.chain h block := by
  rw [addToBlockIndex, hhash, if_neg hfresh, if_neg (Bool.eq_false_iff.mp hbatch)] at hret
  obtain ⟨hres, hpair⟩ := Prod.mk.inj hret
  obtain ⟨hn', -⟩ := Prod.mk.inj hpair
  exact addAlone_added hs (newBlockIndex_newChild hhash hfresh hparent hunique) (Prod.ext hres hn')

end Add

end Phoenixcoin.Analysis
