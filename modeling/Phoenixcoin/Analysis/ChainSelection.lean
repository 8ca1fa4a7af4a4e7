import Phoenixcoin.Analysis.RestartFidelity
import Phoenixcoin.Program.Locator

/-!
# Chain selection

What the runs of successful calls of `AddToBlockIndex` lead to. The best chain has exactly one block
of each height, which `FindBlockByHeight` finds whatever it remembers; nodes with the same blocks
agree on the work of every block and on the best chain, in whatever order the blocks came; and
`Reorganize` finds the last common block of any two.
-/

set_option autoImplicit false

namespace Phoenixcoin.Analysis

open Lib Program Model ChainState Option CChainImportBatch

/-! ## The main chain -/

section MainChain

variable {env : NodeEnv} {s : ChainState} {t h p x : uint256} {k n : ℕ}

theorem BlockIndexOk.isInMainChain_iff (hs : BlockIndexOk env s) :
    s.IsInMainChain h ↔ ∃ t, s.pindexBest = some t ∧ Above s.pprev t h := by
  rw [IsInMainChain, Bool.and_eq_true, Bool.or_eq_true, decide_eq_true_iff]
  constructor
  · rintro ⟨-, hnext | hbest⟩
    · obtain ⟨b, hb⟩ := isSome_iff_exists.mp hnext
      obtain ⟨⟨t, ht, habove⟩, hparent⟩ := (hs.linked h b).mp hb
      exact ⟨t, ht, habove.tail hparent⟩
    · exact ⟨h, hbest, .refl⟩
  · rintro ⟨t, ht, habove⟩
    rcases Relation.ReflTransGen.cases_tail habove with rfl | ⟨c, hc, hparent⟩
    · obtain ⟨-, e, he⟩ := hs.best_eq ht
      exact ⟨isSome_of_eq_some he, .inr ht⟩
    · obtain ⟨e, he⟩ := hs.tree.pprev_entry hparent
      exact ⟨isSome_of_eq_some he,
        .inl (isSome_of_eq_some ((hs.linked h c).mpr ⟨⟨t, ht, hc⟩, hparent⟩))⟩

/-- The first loop stops at the block it looks for, or at once when it starts before it. -/
theorem lowerTo_mainChain (hs : TreeOk s) (hp : s.nHeight p < s.size)
    (h : Above s.pprev p x ∨ Above s.pprev x p) :
    ∃ q, s.lowerTo (s.nHeight x) s.size p = some q ∧ Above s.pprev x q := by
  rcases h with habove | hbefore
  · obtain ⟨q, hq, -, hqx, hheight⟩ := lowerTo_spec hs le_rfl habove hp
    obtain rfl := hqx.eq_of_rank_le hs.graded hheight
    exact ⟨q, hq, .refl⟩
  · have hle := hbefore.rank_le hs.graded
    obtain ⟨m, hm⟩ := Nat.exists_eq_succ_of_ne_zero (Nat.ne_zero_of_lt hp)
    rw [hm, lowerTo, if_neg (not_lt.mpr hle)]
    exact ⟨p, rfl, hbefore⟩

/-- The second loop follows the forward links up to the block it looks for. -/
theorem raiseTo_mainChain (hs : TreeOk s) (hlinked : Linked s.pprev s.pnext (some t))
    (hx : Above s.pprev t x) (hp : Above s.pprev x p) (hn : s.nHeight x < n + s.nHeight p) :
    s.raiseTo (s.nHeight x) n p = some x := by
  induction n generalizing p with
  | zero =>
    have := hp.rank_le hs.graded
    omega
  | succ n ih =>
    rw [raiseTo]
    split
    · next hlow =>
      rcases Relation.ReflTransGen.cases_tail hp with rfl | ⟨c, hc, hparent⟩
      · exact absurd hlow (lt_irrefl _)
      · have hheight := hs.graded _ _ hparent
        rw [(hlinked p c).mpr ⟨⟨t, rfl, hx.trans hc⟩, hparent⟩]
        exact ih hc (by omega)
    · next hhigh => rw [hp.eq_of_rank_le hs.graded (not_lt.mp hhigh)]

/-- Every height up to that of the best block occurs on the best chain. -/
theorem exists_above_height (hs : TreeOk s) {e : CBlockIndex} (he : s.entry t = some e)
    (hk : k ≤ s.nHeight t) : ∃ x, Above s.pprev t x ∧ s.nHeight x = k := by
  induction hd : s.nHeight t - k generalizing t e with
  | zero => exact ⟨t, .refl, by omega⟩
  | succ d ih =>
    cases hp : s.pprev t with
    | none =>
      have hroot := hs.root t e he (by rwa [pprev, he] at hp)
      rw [nHeight, he, elim_some] at hd
      omega
    | some p =>
      have hheight := hs.graded _ _ hp
      obtain ⟨pe, hpe⟩ := hs.pprev_entry hp
      obtain ⟨x, hx, hxk⟩ := ih hpe (by omega) (by omega)
      exact ⟨x, .head hp hx, hxk⟩

end MainChain

/-! ## Looking blocks up -/

/-- The block that `FindBlockByHeight` remembers is on the best chain. -/
def RemembersMain (s : ChainState) : Prop :=
  ∀ h, s.pblockindexFBBHLast = some h → ∃ t, s.pindexBest = some t ∧ Above s.pprev t h

/-- The runs of `AddRun` with calls of `FindBlockByHeight` between them. -/
inductive LookupRun (env : NodeEnv) (nTime : ℤ) : Node → CChainImportBatch → Prop where
  | start : LookupRun env nTime Node.fresh new
  | add {n : Node} {batch : CChainImportBatch} (o : ChainOutcome) (nFile nBlockPos : ℕ)
      (block : CBlock) (hrun : LookupRun env nTime n batch)
      (hblock : Admissible env nTime n.chain nFile nBlockPos block o)
      (hsuccess : (addToBlockIndex env o nFile nBlockPos block n batch).1 = true) :
      LookupRun env nTime (addToBlockIndex env o nFile nBlockPos block n batch).2.1
        (addToBlockIndex env o nFile nBlockPos block n batch).2.2
  | addBytes {n : Node} {batch : CChainImportBatch} (nBlockBytes : ℕ)
      (hrun : LookupRun env nTime n batch) :
      LookupRun env nTime n (batch.addBytes nBlockBytes)
  | beginBatch {n : Node} {batch : CChainImportBatch} (ok : Bool)
      (hrun : LookupRun env nTime n batch) (hsuccess : (batch.beginBatch ok n).1 = true) :
      LookupRun env nTime (batch.beginBatch ok n).2.1 (batch.beginBatch ok n).2.2
  | commitBatch {n : Node} {batch : CChainImportBatch} (ok : Bool)
      (hrun : LookupRun env nTime n batch) (hsuccess : (batch.commitBatch ok n).1 = true) :
      LookupRun env nTime (batch.commitBatch ok n).2.1 (batch.commitBatch ok n).2.2
  | lookup {n : Node} {batch : CChainImportBatch} {nHeight : ℕ} {h : uint256} {s : ChainState}
      (hrun : LookupRun env nTime n batch) (hle : (nHeight : ℤ) ≤ n.chain.nBestHeight)
      (hfound : n.chain.findBlockByHeight nHeight = some (h, s)) :
      LookupRun env nTime ⟨s, n.txdb⟩ batch

section Lookups

variable {env : NodeEnv} {nTime : ℤ} {n n' : Node} {batch batch' : CChainImportBatch}
  {o : ChainOutcome} {h hash : uint256} {e : CBlockIndex} {block : CBlock} {s s' : ChainState}
  {nHeight nFile nBlockPos : ℕ}

/-- What is remembered is dropped, or nothing it depends on changes. -/
def MemoryKept (s s' : ChainState) : Prop :=
  s'.pblockindexFBBHLast = none ∨ s'.pblockindexFBBHLast = s.pblockindexFBBHLast ∧
    s'.pindexBest = s.pindexBest ∧ s'.mapBlockIndex = s.mapBlockIndex

theorem writeNewBlock_memory {fBatch : Bool}
    (hret : writeNewBlock env o fBatch n h e block = (true, n')) :
    MemoryKept n.chain n'.chain := by
  unfold writeNewBlock at hret
  split at hret
  · cases hret
  · dsimp only at hret
    split at hret
    · unfold setBestChain at hret
      split at hret
      · cases hret
      · split at hret
        · cases hret
        · cases hret
          exact .inl rfl
    · obtain ⟨-, rfl⟩ := Prod.mk.inj hret
      exact .inr ⟨rfl, rfl, rfl⟩

theorem addAlone_memory (hret : addAlone env o n h e block = (true, n')) :
    MemoryKept n.chain n'.chain := by
  unfold addAlone at hret
  split at hret
  · cases hret
  · split at hret
    · cases hret
    · next n1 hwrite =>
      have hkept := writeNewBlock_memory hwrite
      split at hret
      · cases hret
        exact hkept
      · cases hret
        exact hkept

theorem RemembersMain.insertEntry (hs : RemembersMain s) (hfresh : s.entry h = none)
    (hkept : MemoryKept (insertEntry s h e) s') : RemembersMain s' := by
  intro a ha
  rcases hkept with hnone | ⟨hlast, hbest, hmap⟩
  · cases hnone.symm.trans ha
  · obtain ⟨t, ht, habove⟩ := hs a (hlast.symm.trans ha)
    refine ⟨t, hbest.trans ht, habove.mono fun b p hp => ?_⟩
    obtain ⟨be, hbe, hparent⟩ := pprev_eq_some.mp hp
    refine pprev_eq_some.mpr ⟨be, ?_, hparent⟩
    have hentry := @entry_insertEntry_of_some h e b be s hfresh hbe
    rw [entry] at hentry ⊢
    rwa [hmap]

theorem addToBlockIndex_remembers (hs : RemembersMain n.chain)
    (hret : addToBlockIndex env o nFile nBlockPos block n batch = (true, n', batch')) :
    RemembersMain n'.chain := by
  unfold addToBlockIndex at hret
  dsimp only at hret
  split at hret
  · cases hret
  · next hfresh =>
    have hnone := Finmap.lookup_eq_none.mpr hfresh
    split at hret
    · split at hret
      · generalize hwrite : writeNewBlock env o true _ _ _ block = result at hret
        obtain ⟨fWritten, n1⟩ := result
        cases hret
        exact hs.insertEntry hnone (writeNewBlock_memory hwrite)
      · cases hret
    · generalize hadd : addAlone env o _ _ _ block = result at hret
      obtain ⟨fAdded, n1⟩ := result
      cases hret
      exact hs.insertEntry hnone (addAlone_memory hadd)

theorem IndexInv.remember (hn : IndexInv env nTime n) (last : Option uint256) :
    IndexInv env nTime ⟨{ n.chain with pblockindexFBBHLast := last }, n.txdb⟩ :=
  ⟨⟨⟨hn.ok.tree.key, hn.ok.tree.parent, hn.ok.tree.root⟩, hn.ok.genesis, hn.ok.best, hn.ok.linked,
    hn.ok.rooted⟩, hn.headers, hn.roots, hn.work, hn.maxWork, hn.bestGlobals, hn.empty, hn.recorded,
    hn.best, hn.checked⟩

theorem findStart_mainChain {t : uint256} (hn : IndexInv env nTime n) (hs : RemembersMain n.chain)
    (hbest : n.chain.pindexBest = some t) (nHeight : ℕ) :
    ∃ p, n.chain.findStart nHeight = some p ∧ Above n.chain.pprev t p := by
  obtain ⟨-, te, hte⟩ := hn.ok.best_eq hbest
  obtain ⟨hgenesis, ge, hge⟩ := hn.genesis_above hte
  obtain ⟨p, hp, habove⟩ : ∃ p, (if (nHeight : ℤ) < n.chain.nBestHeight.tdiv 2 then
      n.chain.pindexGenesisBlock else n.chain.pindexBest) = some p ∧ Above n.chain.pprev t p := by
    split
    · exact ⟨_, by rw [hn.genesis, hge, map_some], hgenesis⟩
    · exact ⟨t, hbest, .refl⟩
  rw [findStart, hp, bind_eq_bind, bind_some]
  split
  · next last hlast =>
    obtain ⟨t', ht', hlastAbove⟩ := hs last hlast
    cases hbest.symm.trans ht'
    dsimp only
    split
    · exact ⟨last, rfl, hlastAbove⟩
    · exact ⟨p, rfl, habove⟩
  · exact ⟨p, rfl, habove⟩

/-- Whichever block the search starts from, it ends at the block of the best chain. -/
theorem findBlockByHeight_spec (hn : IndexInv env nTime n) (hs : RemembersMain n.chain)
    (hle : (nHeight : ℤ) ≤ n.chain.nBestHeight) :
    ∃ t x, n.chain.pindexBest = some t ∧ Above n.chain.pprev t x ∧
      n.chain.nHeight x = nHeight ∧ n.chain.findBlockByHeight nHeight =
        some (x, { n.chain with pblockindexFBBHLast := some x }) := by
  cases hbest : n.chain.pindexBest with
  | none =>
    have := (hn.empty hbest).2.2.2.1
    omega
  | some t =>
    obtain ⟨-, te, hte⟩ := hn.ok.best_eq hbest
    rw [(hn.bestGlobals t hbest).1, Nat.cast_le] at hle
    obtain ⟨x, hx, rfl⟩ := exists_above_height hn.ok.tree hte hle
    have hsize : ∀ p, Above n.chain.pprev t p → n.chain.nHeight p < n.chain.size := fun p hp =>
      (hp.rank_le hn.ok.tree.graded).trans_lt (hn.ok.tree.nHeight_lt_size hte)
    obtain ⟨p, hp, habove⟩ := findStart_mainChain hn hs hbest (n.chain.nHeight x)
    obtain ⟨q, hq, hxq⟩ := lowerTo_mainChain hn.ok.tree (hsize p habove) (habove.total hx)
    refine ⟨t, x, rfl, hx, rfl, ?_⟩
    rw [findBlockByHeight, hp, bind_eq_bind, bind_some, hq, bind_some,
      raiseTo_mainChain hn.ok.tree (hbest ▸ hn.ok.linked) hx hxq (Nat.lt_add_right _ (hsize x hx))]
    rfl

theorem beginBatch_remembers {ok : Bool} (hs : RemembersMain n.chain) :
    RemembersMain (batch.beginBatch ok n).2.1.chain := by
  unfold beginBatch
  split
  · exact hs
  · split <;> exact hs

theorem commitBatch_remembers {ok : Bool} (hs : RemembersMain n.chain)
    (hsuccess : (batch.commitBatch ok n).1 = true) :
    RemembersMain (batch.commitBatch ok n).2.1.chain := by
  unfold commitBatch at hsuccess ⊢
  split at hsuccess
  · next hidle =>
    rw [if_pos hidle]
    exact hs
  · next hactive =>
    rw [if_neg hactive]
    split at hsuccess
    · cases hsuccess
    · exact hs

theorem lookupRun_inv (hnonzero : ∀ header, env.blockHash header ≠ 0)
    (hrun : LookupRun env nTime n batch) :
    IndexInv env nTime n ∧ (batch.fActive = false → n.txdb.activeTxn = none) ∧
      RemembersMain n.chain := by
  induction hrun with
  | start => exact ⟨indexInv_fresh, fun _ => rfl, nofun⟩
  | @add n batch o nFile nBlockPos block hrun hblock hsuccess ih =>
    have hret : addToBlockIndex env o nFile nBlockPos block n batch = (true, _, _) :=
      Prod.ext hsuccess rfl
    obtain ⟨hinv, hactive, hidle⟩ := addToBlockIndex_inv hnonzero ih.1 hblock hret
    exact ⟨hinv, fun hnot => hidle (hactive ▸ hnot), addToBlockIndex_remembers ih.2.2 hret⟩
  | addBytes nBlockBytes hrun ih => exact ih
  | @beginBatch n batch ok hrun hsuccess ih =>
    obtain ⟨hinv, hactive⟩ := beginBatch_inv ih.1 (Prod.ext hsuccess rfl)
    exact ⟨hinv, fun hnot => (Bool.false_ne_true (hnot.symm.trans hactive)).elim,
      beginBatch_remembers ih.2.2⟩
  | @commitBatch n batch ok hrun hsuccess ih =>
    obtain ⟨hinv, hidle⟩ := commitBatch_inv ih.1 ih.2.1 (Prod.ext hsuccess rfl)
    exact ⟨hinv, fun _ => hidle, commitBatch_remembers ih.2.2 hsuccess⟩
  | @lookup n batch nHeight h s hrun hle hfound ih =>
    obtain ⟨t, x, hbest, hx, -, hsearch⟩ := findBlockByHeight_spec ih.1 ih.2.2 hle
    cases hfound.symm.trans hsearch
    refine ⟨ih.1.remember _, ih.2.1, fun a ha => ?_⟩
    cases ha
    exact ⟨t, hbest, hx⟩

theorem AddRun.lookupRun (hrun : AddRun env nTime n batch) : LookupRun env nTime n batch := by
  induction hrun with
  | start => exact .start
  | add o nFile nBlockPos block _ hblock hsuccess ih =>
    exact .add o nFile nBlockPos block ih hblock hsuccess
  | addBytes nBlockBytes _ ih => exact .addBytes nBlockBytes ih
  | beginBatch ok _ hsuccess ih => exact .beginBatch ok ih hsuccess
  | commitBatch ok _ hsuccess ih => exact .commitBatch ok ih hsuccess

/-- After any blocks and any earlier lookups, the block that is found is the one block of the best
chain with this height. -/
theorem findBlockByHeight_mainChain (hnonzero : ∀ header, env.blockHash header ≠ 0)
    (hrun : LookupRun env nTime n batch) (hle : (nHeight : ℤ) ≤ n.chain.nBestHeight) :
    ∃ h s, n.chain.findBlockByHeight nHeight = some (h, s) ∧ n.chain.IsInMainChain h ∧
      n.chain.nHeight h = nHeight ∧
      ∀ h', n.chain.IsInMainChain h' → n.chain.nHeight h' = nHeight → h' = h := by
  obtain ⟨hn, -, hs⟩ := lookupRun_inv hnonzero hrun
  obtain ⟨t, x, hbest, hx, hheight, hsearch⟩ := findBlockByHeight_spec hn hs hle
  refine ⟨x, _, hsearch, hn.ok.isInMainChain_iff.mpr ⟨t, hbest, hx⟩, hheight, ?_⟩
  intro h' hmain hheight'
  obtain ⟨t', ht', hh'⟩ := hn.ok.isInMainChain_iff.mp hmain
  cases hbest.symm.trans ht'
  have hrank := hheight'.trans hheight.symm
  rcases hh'.total hx with habove | habove
  · exact habove.eq_of_rank_le hn.ok.tree.graded hrank.le
  · exact (habove.eq_of_rank_le hn.ok.tree.graded hrank.ge).symm

/-- What a node can serve: every block of the best chain but the first is on disk and passes
`CheckBlock`, and the database names the same best block as the memory. -/
theorem bestChain_onDisk (hnonzero : ∀ header, env.blockHash header ≠ 0)
    (hrun : LookupRun env nTime n batch) : n.txdb.view.hashBestChain = n.chain.pindexBest ∧
      ∀ h p, n.chain.IsInMainChain h → n.chain.pprev h = some p →
        CheckedOnDisk env nTime n.chain h := by
  obtain ⟨hn, -⟩ := lookupRun_inv hnonzero hrun
  refine ⟨hn.best, fun h p hmain hp => ?_⟩
  obtain ⟨t, ht, habove⟩ := hn.ok.isInMainChain_iff.mp hmain
  exact hn.checked t h p ht habove hp

theorem bestChain_onDisk_sampleRestart :
    CheckedOnDisk SampleRestart.env 10000 (SampleRestart.state 4).1.chain 3 :=
  (bestChain_onDisk (fun _ => Nat.succ_ne_zero _) SampleRestart.addRun.lookupRun).2 3 1
    (by decide) (by decide)

/-- Block 3 of a branch that has taken over is remembered when block 1 is looked for. -/
theorem findBlockByHeight_sampleRestart :
    ∃ s, (SampleRestart.state 4).1.chain.findBlockByHeight 1 = some (3, s) ∧
      ∃ h s', s.findBlockByHeight 0 = some (h, s') ∧ s.IsInMainChain h ∧ s.nHeight h = 0 ∧
        ∀ h', s.IsInMainChain h' → s.nHeight h' = 0 → h' = h := by
  have hfound : ∃ s, (SampleRestart.state 4).1.chain.findBlockByHeight 1 = some (3, s) := ⟨_, rfl⟩
  obtain ⟨s, hs⟩ := hfound
  have hrun := LookupRun.lookup SampleRestart.addRun.lookupRun (by decide) hs
  cases hs
  exact ⟨_, rfl, findBlockByHeight_mainChain (fun _ => Nat.succ_ne_zero _) hrun (by decide)⟩

end Lookups


/-! ## Agreement -/

/-- Both nodes know the same blocks, and a hash names the same header in both. -/
structure SameBlocks (s s' : ChainState) : Prop where
  known : ∀ h, (s.entry h).isSome = (s'.entry h).isSome
  header : ∀ h e e', s.entry h = some e → s'.entry h = some e' →
    (CDiskBlockIndex.ofBlockIndex e).header = (CDiskBlockIndex.ofBlockIndex e').header

section Agreement

variable {env env' : NodeEnv} {nTime nTime' : ℤ} {n n' : Node} {batch batch' : CChainImportBatch}
  {h : uint256} {e : CBlockIndex}

theorem SameBlocks.symm {s s' : ChainState} (hsame : SameBlocks s s') : SameBlocks s' s :=
  ⟨fun h => (hsame.known h).symm, fun h e e' he he' => (hsame.header h e' e he' he).symm⟩

theorem IndexInv.pprev_ne_zero (hnonzero : ∀ header, env.blockHash header ≠ 0)
    (hn : IndexInv env nTime n) (he : n.chain.entry h = some e) : e.pprev ≠ some 0 := by
  intro hzero
  obtain ⟨pe, hpe, -⟩ := hn.ok.tree.parent h e 0 he hzero
  exact hnonzero _ (hn.headers 0 pe hpe)

section

variable (hnonzero : ∀ header, env.blockHash header ≠ 0)
  (hnonzero' : ∀ header, env'.blockHash header ≠ 0) (hn : IndexInv env nTime n)
  (hn' : IndexInv env' nTime' n') (hsame : SameBlocks n.chain n'.chain)
include hnonzero hnonzero' hn hn' hsame

theorem SameBlocks.entry (he : n.chain.entry h = some e) :
    ∃ e', n'.chain.entry h = some e' ∧ e'.pprev = e.pprev ∧ e'.nBits = e.nBits := by
  obtain ⟨e', he'⟩ := isSome_iff_exists.mp ((hsame.known h).symm.trans (isSome_of_eq_some he))
  have hheader := hsame.header h e e' he he'
  have hprev : e.pprev.getD 0 = e'.pprev.getD 0 := congrArg CBlockHeader.hashPrevBlock hheader
  have hne := hn.pprev_ne_zero hnonzero he
  have hne' := hn'.pprev_ne_zero hnonzero' he'
  refine ⟨e', he', ?_, (congrArg CBlockHeader.nBits hheader).symm⟩
  cases hp : e.pprev with
  | none =>
    cases hp' : e'.pprev with
    | none => rfl
    | some p' =>
      rw [hp, hp'] at hprev
      exact absurd (hp'.trans (congrArg some hprev.symm)) hne'
  | some p =>
    cases hp' : e'.pprev with
    | none =>
      rw [hp, hp'] at hprev
      exact absurd (hp.trans (congrArg some hprev)) hne
    | some p' =>
      rw [hp, hp'] at hprev
      exact congrArg some hprev.symm

theorem SameBlocks.pprev : n'.chain.pprev = n.chain.pprev := by
  funext h
  unfold ChainState.pprev
  cases he : n.chain.entry h with
  | none =>
    have hnone := (hsame.known h).symm.trans (he ▸ isSome_none)
    rw [isNone_iff_eq_none.mp (isSome_eq_false_iff.mp hnone)]
  | some e =>
    obtain ⟨e', he', hprev, -⟩ := hsame.entry hnonzero hnonzero' hn hn' he
    rw [he', bind_some, bind_some, hprev]

/-- The work of a block is that of its ancestors, which are the same. -/
theorem SameBlocks.bnChainWork (h : uint256) : n'.chain.bnChainWork h = n.chain.bnChainWork h := by
  induction hheight : n.chain.nHeight h using Nat.strongRecOn generalizing h with
  | ind m ih =>
    cases he : n.chain.entry h with
    | none =>
      have hnone := (hsame.known h).symm.trans (he ▸ isSome_none)
      have he' := isNone_iff_eq_none.mp (isSome_eq_false_iff.mp hnone)
      rw [ChainState.bnChainWork, ChainState.bnChainWork, he, he']
    | some e =>
      obtain ⟨e', he', hprev, hbits⟩ := hsame.entry hnonzero hnonzero' hn hn' he
      have hwork := hn.work h e he
      have hwork' := hn'.work h e' he'
      rw [hprev, hbits] at hwork'
      rw [ChainState.bnChainWork, ChainState.bnChainWork, he, he', elim_some, elim_some, hwork,
        hwork']
      cases hp : e.pprev with
      | none => rfl
      | some p =>
        have hlower := hn.ok.tree.graded h p (pprev_eq_some.mpr ⟨e, he, hp⟩)
        rw [elim_some, elim_some, ih _ (by omega) p rfl]

theorem SameBlocks.bnBestChainWork_le : n.chain.bnBestChainWork ≤ n'.chain.bnBestChainWork := by
  cases hbest : n.chain.pindexBest with
  | none => rw [(hn.empty hbest).2.2.2.2]; exact Nat.zero_le _
  | some t =>
    obtain ⟨-, e, he⟩ := hn.ok.best_eq hbest
    obtain ⟨e', he', -⟩ := hsame.entry hnonzero hnonzero' hn hn' he
    have hmax := hn'.maxWork t e' he'
    rw [(hn.bestGlobals t hbest).2, ← hsame.bnChainWork hnonzero hnonzero' hn hn',
      ChainState.bnChainWork, he']
    exact hmax

end

/-- Nodes that have accepted the same blocks, in whatever order and in whatever batches, give each
block the same work, and no block has more than either best block. If one block alone has that much,
both have the same best chain. -/
theorem bestChain_agrees (hnonzero : ∀ header, env.blockHash header ≠ 0)
    (hnonzero' : ∀ header, env'.blockHash header ≠ 0) (hrun : AddRun env nTime n batch)
    (hrun' : AddRun env' nTime' n' batch') (hsame : SameBlocks n.chain n'.chain) :
    (∀ h, n'.chain.bnChainWork h = n.chain.bnChainWork h) ∧
      n'.chain.bnBestChainWork = n.chain.bnBestChainWork ∧
      (∀ h, n.chain.bnChainWork h ≤ n.chain.bnBestChainWork) ∧
      ((∀ h h', (n.chain.entry h).isSome → (n.chain.entry h').isSome →
          n.chain.bnChainWork h = n.chain.bnBestChainWork →
          n.chain.bnChainWork h' = n.chain.bnBestChainWork → h = h') →
        n'.chain.pindexBest = n.chain.pindexBest ∧
          ∀ h, n'.chain.IsInMainChain h = n.chain.IsInMainChain h) := by
  obtain ⟨hn, -⟩ := addRun_inv hnonzero hrun
  obtain ⟨hn', -⟩ := addRun_inv hnonzero' hrun'
  have hwork := hsame.bnChainWork hnonzero hnonzero' hn hn'
  have hbestWork : n'.chain.bnBestChainWork = n.chain.bnBestChainWork :=
    le_antisymm (hsame.symm.bnBestChainWork_le hnonzero' hnonzero hn' hn)
      (hsame.bnBestChainWork_le hnonzero hnonzero' hn hn')
  refine ⟨hwork, hbestWork, fun h => ?_, fun hunique => ?_⟩
  · cases he : n.chain.entry h with
    | none => rw [bnChainWork, he]; exact Nat.zero_le _
    | some e =>
      rw [bnChainWork, he]
      exact hn.maxWork h e he
  · have hbest : n'.chain.pindexBest = n.chain.pindexBest := by
      cases ht : n.chain.pindexBest with
      | none =>
        cases ht' : n'.chain.pindexBest with
        | none => rfl
        | some t' =>
          obtain ⟨-, e', he'⟩ := hn'.ok.best_eq ht'
          obtain ⟨e, he, -⟩ := hsame.symm.entry hnonzero' hnonzero hn' hn he'
          rw [entry, (hn.empty ht).1] at he
          cases he
      | some t =>
        obtain ⟨-, e, he⟩ := hn.ok.best_eq ht
        obtain ⟨e', he', -⟩ := hsame.entry hnonzero hnonzero' hn hn' he
        cases ht' : n'.chain.pindexBest with
        | none =>
          rw [entry, (hn'.empty ht').1] at he'
          cases he'
        | some t' =>
          obtain ⟨-, e₁', he₁'⟩ := hn'.ok.best_eq ht'
          obtain ⟨e₁, he₁, -⟩ := hsame.symm.entry hnonzero' hnonzero hn' hn he₁'
          have hheavy : n.chain.bnChainWork t' = n.chain.bnBestChainWork := by
            rw [← hwork, ← (hn'.bestGlobals t' ht').2, hbestWork]
          rw [hunique t' t (isSome_of_eq_some he₁) (isSome_of_eq_some he) hheavy
            (hn.bestGlobals t ht).2.symm]
    refine ⟨hbest, fun h => Bool.eq_iff_iff.mpr ?_⟩
    rw [hn'.ok.isInMainChain_iff, hn.ok.isInMainChain_iff, hbest,
      hsame.pprev hnonzero hnonzero' hn hn']

end Agreement

namespace SampleRestart

/-- The branch first, and then block 2. -/
def order (i : ℕ) : ℕ := [0, 2, 3, 1].getD i 0

def reordered : ℕ → Node × CChainImportBatch
  | 0 => (Node.fresh, new)
  | i + 1 =>
    (addToBlockIndex env outcome 1 (order i) (block (order i)) (reordered i).1 (reordered i).2).2

theorem addRun_reordered : AddRun env 10000 (reordered 4).1 (reordered 4).2 := by
  have h1 : AddRun env 10000 (reordered 1).1 (reordered 1).2 :=
    .add outcome 1 0 (block 0) .start ⟨⟨rfl, rfl⟩, .inr ⟨rfl, rfl, rfl⟩, le_rfl⟩ (by decide)
  have h2 : AddRun env 10000 (reordered 2).1 (reordered 2).2 :=
    .add outcome 1 2 (block 2) h1 ⟨⟨rfl, rfl⟩, .inl (by decide), le_rfl⟩ (by decide)
  have h3 : AddRun env 10000 (reordered 3).1 (reordered 3).2 :=
    .add outcome 1 3 (block 3) h2 ⟨⟨rfl, rfl⟩, .inl (by decide), le_rfl⟩ (by decide)
  exact .add outcome 1 1 (block 1) h3 ⟨⟨rfl, rfl⟩, .inl (by decide), le_rfl⟩ (by decide)

theorem isSome_entry {s : ChainState} (hkeys : s.mapBlockIndex.keys = {1, 2, 3, 4}) (h : uint256) :
    (s.entry h).isSome = decide (h ∈ [1, 2, 3, 4]) := by
  rw [entry, Bool.eq_iff_iff, Finmap.lookup_isSome, ← Finmap.mem_keys, hkeys]
  simp

theorem mem_of_isSome {h : uint256} (hh : ((state 4).1.chain.entry h).isSome) : h ∈ [1, 2, 3, 4] :=
  of_decide_eq_true ((isSome_entry (by decide) h).symm.trans hh)

theorem sameBlocks : SameBlocks (state 4).1.chain (reordered 4).1.chain := by
  refine ⟨fun h => ?_, fun h e e' he he' => ?_⟩
  · rw [isSome_entry (by decide), isSome_entry (by decide)]
  · have hheaders : ∀ h ∈ [1, 2, 3, 4], ((state 4).1.chain.entry h).map (fun e =>
        (CDiskBlockIndex.ofBlockIndex e).header) = ((reordered 4).1.chain.entry h).map fun e =>
          (CDiskBlockIndex.ofBlockIndex e).header := by decide
    have hheader := hheaders h (mem_of_isSome (isSome_of_eq_some he))
    rw [he, he'] at hheader
    exact Option.some.inj hheader

end SampleRestart

open SampleRestart

theorem bestChain_agrees_sampleRestart :
    (reordered 4).1.chain.pindexBest = (state 4).1.chain.pindexBest ∧
      ∀ h, (reordered 4).1.chain.IsInMainChain h =
        (state 4).1.chain.IsInMainChain h := by
  have hheaviest : ∀ h ∈ [1, 2, 3, 4], (state 4).1.chain.bnChainWork h =
      (state 4).1.chain.bnBestChainWork → h = 4 := by decide
  exact (bestChain_agrees (fun _ => Nat.succ_ne_zero _) (fun _ => Nat.succ_ne_zero _)
    addRun addRun_reordered sameBlocks).2.2.2
      fun h h' hh hh' hwork hwork' =>
        (hheaviest h (mem_of_isSome hh) hwork).trans
          (hheaviest h' (mem_of_isSome hh') hwork').symm

/-! ## Forks -/

section Forks

variable {env : NodeEnv} {nTime : ℤ} {n : Node} {batch : CChainImportBatch} {s : ChainState}
  {a b f p x plonger pfork : uint256} {k fuel : ℕ} {l : List uint256}

/-- Going back to a height passes no block of that height or below. -/
theorem lowerTo_keeps (h : s.lowerTo k fuel plonger = some p) :
    s.nHeight p ≤ k ∧ ∀ x, Above s.pprev plonger x → s.nHeight x ≤ k → Above s.pprev p x := by
  induction fuel generalizing plonger with
  | zero => cases h
  | succ fuel ih =>
    rw [lowerTo] at h
    split at h
    · next hhigher =>
      obtain ⟨q, hq, hrest⟩ := bind_eq_some_iff.mp h
      obtain ⟨hheight, hkeeps⟩ := ih hrest
      refine ⟨hheight, fun x hx hk => hkeeps x (hx.of_parent hq ?_) hk⟩
      rintro rfl
      omega
    · next hlow =>
      cases h
      exact ⟨not_lt.mp hlow, fun x hx _ => hx⟩

theorem findFork_last (hs : TreeOk s) (h : s.findFork fuel pfork plonger = some f)
    (hx : Above s.pprev pfork x) (hx' : Above s.pprev plonger x) : Above s.pprev f x := by
  induction fuel generalizing pfork plonger with
  | zero => cases h
  | succ fuel ih =>
    rw [findFork] at h
    split at h
    · cases h
      exact hx
    · obtain ⟨p, hp, hrest⟩ := bind_eq_some_iff.mp h
      obtain ⟨hheight, hkeeps⟩ := lowerTo_keeps hp
      have hpx := hkeeps x hx' (hx.rank_le hs.graded)
      split at hrest
      · cases hrest
        exact hx
      · next hne =>
        obtain ⟨q, hq, hloop⟩ := bind_eq_some_iff.mp hrest
        refine ih hloop (hx.of_parent hq ?_) hpx
        rintro rfl
        exact hne (hpx.eq_of_rank_le hs.graded hheight).symm

theorem path_mem (hs : TreeOk s) (h : Path s.pprev a l b) (hx : x ∈ l) :
    Above s.pprev a x ∧ s.nHeight b < s.nHeight x := by
  induction h with
  | nil => cases hx
  | @cons a p b l hp hrest ih =>
    rcases List.mem_cons.mp hx with rfl | hx
    · have hheight := hs.graded _ _ hp
      have hle := hrest.above.rank_le hs.graded
      exact ⟨.refl, by omega⟩
    · obtain ⟨habove, hlt⟩ := ih hx
      exact ⟨.head hp habove, hlt⟩

/-- `Reorganize` from `a` to `b` finds their last common ancestor, and what it would disconnect and
connect are the blocks between, which are different ones. -/
def ForkFound (s : ChainState) (a b : uint256) : Prop :=
  ∃ f la lb, s.findFork s.size a b = some f ∧ s.branch f s.size a = some la ∧
    s.branch f s.size b = some lb ∧ Path s.pprev a la f ∧ Descent s.pprev f lb.reverse b ∧
    la.Disjoint lb ∧ ∀ x, Above s.pprev a x → Above s.pprev b x → Above s.pprev f x

/-- The search for the fork succeeds for any two blocks. -/
theorem reorganize_lastCommon (hnonzero : ∀ header, env.blockHash header ≠ 0)
    (hrun : AddRun env nTime n batch) (ha : (n.chain.entry a).isSome)
    (hb : (n.chain.entry b).isSome) : ForkFound n.chain a b := by
  obtain ⟨hn, -⟩ := addRun_inv hnonzero hrun
  obtain ⟨ea, hea⟩ := isSome_iff_exists.mp ha
  obtain ⟨eb, heb⟩ := isSome_iff_exists.mp hb
  obtain ⟨f, hf, hla, hlb⟩ := reorganize_loops_end hn.ok.tree hea heb (hn.genesis_above hea).1
    (hn.genesis_above heb).1
  obtain ⟨la, hla⟩ := isSome_iff_exists.mp hla
  obtain ⟨lb, hlb⟩ := isSome_iff_exists.mp hlb
  have hpatha := branch_path hla
  have hpathb := branch_path hlb
  have hlast := fun x => @findFork_last _ _ x _ _ _ hn.ok.tree hf
  refine ⟨f, la, lb, hf, hla, hlb, hpatha, hpathb.reverse, fun x hxa hxb => ?_, hlast⟩
  obtain ⟨hax, hlt⟩ := path_mem hn.ok.tree hpatha hxa
  have hle := (hlast x hax (path_mem hn.ok.tree hpathb hxb).1).rank_le hn.ok.tree.graded
  omega

theorem reorganize_lastCommon_sampleRestart :
    (state 4).1.chain.findFork (state 4).1.chain.size 2 4 = some 1 ∧
      ForkFound (state 4).1.chain 2 4 :=
  ⟨by decide, reorganize_lastCommon (fun _ => Nat.succ_ne_zero _) addRun (by decide)
    (by decide)⟩

end Forks

/-! ## Disconnecting a branch -/

section Undo

variable {env : NodeEnv} {o o' : ChainOutcome} {s s' : ChainState} {txdb txdb' : CTxDB}
  {l : List uint256}

/-- The transactions of the block that an entry has on disk. -/
def storedTxIDs (env : NodeEnv) (s : ChainState) (h : uint256) : List uint256 :=
  ((s.entry h).bind (readBlockFromDisk env.toChainEnv true h)).elim [] fun block =>
    block.vtx.map env.txHash

/-- The blocks `l` bring transactions that are new, also among themselves. The null position is
always the one that `SetNull` writes, and no block file has the null number. -/
structure BlocksNew (env : NodeEnv) (s : ChainState) (txdb : CTxDB) (l : List uint256) : Prop where
  nulls : NullsCanonical txdb.view.tx
  file : ∀ h ∈ l, (s.entry h).map CBlockIndex.nFile ≠ some uintMax
  nodup : (l.flatMap (storedTxIDs env s)).Nodup
  new : ∀ id ∈ l.flatMap (storedTxIDs env s), txdb.view.tx.lookup id = none

/-- Connecting one block leaves the later ones new, and disconnecting it takes it back. -/
theorem connectIndexed_undo (hok : ∀ h, NoFailure (o'.db h)) (hsame : SameTree s s') (h : uint256)
    (l : List uint256) (txdb txdb' : CTxDB) (hnew : BlocksNew env s txdb (h :: l))
    (hconnect : connectIndexed env o s txdb h = some txdb') :
    BlocksNew env s txdb' l ∧ ∀ t', txdb'.view.tx = t'.view.tx →
      ∃ t, disconnectIndexed env o' s' t' h = some t ∧ txdb.view.tx = t.view.tx := by
  obtain ⟨e, he, hconnect⟩ := bind_eq_some_iff.mp hconnect
  obtain ⟨block, hread, hattach⟩ := bind_eq_some_iff.mp hconnect
  obtain ⟨e', he', hblock⟩ := bind_eq_some_iff.mp hattach
  cases he.symm.trans he'
  have hread' := readBlockFromDisk_true hread
  have hids : storedTxIDs env s h = block.vtx.map env.txHash := by
    rw [storedTxIDs, he, bind_some, hread', elim_some]
  have hfile : e.nFile ≠ uintMax := by
    have hmap := hnew.file h List.mem_cons_self
    rw [he] at hmap
    exact fun heq => hmap (congrArg some heq)
  obtain ⟨hnulls, hfiles, hnodup, hnone⟩ := hnew
  rw [List.flatMap_cons, hids] at hnodup hnone
  obtain ⟨-, hlater, hdisjoint⟩ := List.nodup_append'.mp hnodup
  obtain ⟨hcheck, state, -, -, hloop, -, -, -, hview⟩ := connectBlock_cases hblock
  obtain ⟨hchecked, hblockNodup, -, -⟩ := checkBlock_spec hcheck
  have hstart : queuedIndex ∅ txdb = txdb.view.tx := Finmap.empty_union
  have hto : ToConnect env.toChainEnv txdb ⟨∅, 0, 0, firstTxPos e block⟩ block.vtx :=
    ⟨hstart ▸ hnulls, hchecked, hblockNodup, fun tx htx => hstart ▸
      hnone _ (List.mem_append_left _ (List.mem_map_of_mem htx))⟩
  constructor
  · have hend := foldlM_invariant (P := fun state txs => ToConnect env.toChainEnv txdb state txs ∧
        ∀ id ∈ l.flatMap (storedTxIDs env s), id ∉ txs.map env.txHash ∧
          (queuedIndex state.mapQueuedChanges txdb).lookup id = none)
      (fun tx txs state state' hP hstep => by
        refine ⟨(connectTx_undo (hok h) hfile tx txs state state' hP.1 hstep).1, fun id hid => ?_⟩
        obtain ⟨hout, hnone⟩ := hP.2 id hid
        rw [List.map_cons, List.mem_cons, not_or] at hout
        exact ⟨hout.2, TxEffect.lookup_apply_none
          (txEffect_nodup (hP.1.checked tx List.mem_cons_self))
          (connectTx_effect hstep) hout.1 hnone⟩)
      ⟨hto, fun id hid => ⟨fun hmem => hdisjoint hmem hid, hstart ▸
        hnone id (List.mem_append_right _ hid)⟩⟩ hloop
    exact ⟨hview ▸ hend.1.nulls, fun a ha => hfiles a (List.mem_cons_of_mem _ ha), hlater,
      fun id hid => hview ▸ (hend.2 id hid).2⟩
  · intro t' ht'
    obtain ⟨t1, hrun, hview1⟩ :=
      foldlM_reverse_undo (connectTx_undo (hok h) hfile) hto hloop (hview.symm.trans ht')
    obtain ⟨next, hentry⟩ := hsame.entry he
    obtain ⟨t, hprev⟩ : ∃ t, writePrevBlockIndex env.toChainEnv (o'.db h)
        (s'.pprevs { e with pnext := next }) 0 t1 = some t := by
      unfold writePrevBlockIndex
      split
      · exact ⟨_, rfl⟩
      · exact ⟨_, by rw [hok]; rfl⟩
    refine ⟨t, ?_, ?_⟩
    · rw [disconnectIndexed, hentry, hok, bind_eq_bind, bind_some, bind_eq_bind,
        show readBlockFromDisk env.toChainEnv true h { e with pnext := next } = some block
          from hread',
        bind_some, disconnectBlock, hrun]
      exact hprev
    · rw [view_tx_writePrevBlockIndex hprev, ← hview1, hstart]

/-- Disconnecting a branch from its tip down, as `Reorganize` does when no operation fails, gives
back the transaction index that the branch was connected to, however long it is. -/
theorem branch_disconnected (hok : ∀ h, NoFailure (o'.db h)) (hsame : SameTree s s')
    (hnew : BlocksNew env s txdb l) (h : l.foldlM (connectIndexed env o s) txdb = some txdb') :
    ∃ t, l.reverse.foldlM (disconnectIndexed env o' s') txdb' = some t ∧
      t.view.tx = txdb.view.tx := by
  obtain ⟨t, hrun, hview⟩ :=
    foldlM_reverse_undo (R := fun a b : CTxDB => a.view.tx = b.view.tx)
      (connectIndexed_undo hok hsame) hnew h rfl
  exact ⟨t, hrun, hview.symm⟩

theorem branch_disconnected_sampleRestart :
    ∃ txdb' t, [3, 4].foldlM (connectIndexed SampleRestart.env SampleRestart.outcome
        (SampleRestart.state 4).1.chain) (SampleRestart.state 1).1.txdb = some txdb' ∧
      txdb'.view.tx.keys.card = 2 ∧
      [4, 3].foldlM (disconnectIndexed SampleRestart.env SampleRestart.outcome
        (SampleRestart.state 4).1.chain) txdb' = some t ∧ t.view.tx = ∅ := by
  have hempty : (SampleRestart.state 1).1.txdb.view.tx = ∅ := rfl
  have hnew : BlocksNew SampleRestart.env (SampleRestart.state 4).1.chain
      (SampleRestart.state 1).1.txdb [3, 4] := by
    refine ⟨?_, by decide, by decide, fun id _ => hempty ▸ Finmap.lookup_empty id⟩
    exact fun o slot hslot _ => by cases hslot
  have hcard : ([3, 4].foldlM (connectIndexed SampleRestart.env SampleRestart.outcome
      (SampleRestart.state 4).1.chain) (SampleRestart.state 1).1.txdb).map
        (fun txdb => txdb.view.tx.keys.card) = some 2 := by decide
  obtain ⟨txdb', h, hcard⟩ := map_eq_some_iff.mp hcard
  obtain ⟨t, hrun, hview⟩ := branch_disconnected
    (fun _ _ => rfl : ∀ h, NoFailure (SampleRestart.outcome.db h)) (.refl _) hnew h
  exact ⟨txdb', t, h, hcard, hrun, hview⟩

end Undo

end Phoenixcoin.Analysis
