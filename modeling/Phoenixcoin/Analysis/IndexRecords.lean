import Phoenixcoin.Analysis.TipAgreement
import Phoenixcoin.Analysis.DisconnectConnect
import Phoenixcoin.Program.LoadBlockIndex

/-!
# The records of the block index

Over every run of successful calls of `AddToBlockIndex`, the block-index records of the
database are those of the entries in memory. A forward link changes in both places at once:
`ConnectBlock` and `DisconnectBlock` write the record, and the memory follows.
-/

set_option autoImplicit false

namespace Phoenixcoin.Analysis

open Lib Program Model ChainState Option

/-! ## Records and entries -/

def Recorded (s : ChainState) (blockindex : Table uint256 CDiskBlockIndex) : Prop :=
  ∀ h, blockindex.lookup h = (s.entry h).map CDiskBlockIndex.ofBlockIndex

def HeadersOk (env : ChainEnv) (s : ChainState) : Prop :=
  ∀ h e, s.entry h = some e → env.blockHash (CDiskBlockIndex.ofBlockIndex e).header = h

variable {e : CBlockIndex} {s : ChainState}

theorem pprevs_root (hp : e.pprev = none) : s.pprevs e = [] := by
  rw [pprevs, hp]
  cases s.size <;> rfl

theorem pprevs_child {pe : CBlockIndex} {p : uint256} (hp : e.pprev = some p)
    (hpe : s.entry p = some pe) : ∃ rest, s.pprevs e = pe :: rest := by
  have hpos : 0 < s.size := Finset.card_pos.mpr
    ⟨p, Finmap.mem_keys.mpr (Finmap.mem_iff.mpr ⟨pe, hpe⟩)⟩
  rw [pprevs, hp, ← Nat.succ_pred_eq_of_pos hpos, walkBack, hpe]
  exact ⟨_, rfl⟩

section Link

variable {env : ChainEnv} {s s' : ChainState} {h : uint256} {e : CBlockIndex}
  {t : Table uint256 CDiskBlockIndex}

theorem Recorded.setPnext {p : uint256} {pe : CBlockIndex} {rest : List CBlockIndex}
    (ht : Recorded s' t) (hheaders : HeadersOk env s) (hsame : SameTree s s')
    (hpe : s.entry p = some pe) (next : Option uint256) :
    Recorded (s'.setPnext p next) (linkRecord env (pe :: rest) (next.getD 0) t) := by
  intro a
  have hkey : env.blockHash
      { CDiskBlockIndex.ofBlockIndex pe with hashNext := next.getD 0 }.header = p :=
    hheaders p pe hpe
  obtain ⟨next', hpe'⟩ := hsame.entry hpe
  rw [linkRecord, hkey, Table.lookup_insert_ite, entry_setPnext]
  split
  · rw [hpe']
    rfl
  · exact ht a

section

variable (ht : Recorded s' t) (hs : TreeOk s) (hheaders : HeadersOk env s) (hsame : SameTree s s')
  (he : s.entry h = some e)
include ht hs hheaders hsame he

theorem Recorded.unlink : Recorded (s'.unlink h) (linkRecord env (s.pprevs e) 0 t) := by
  have hpprev : s'.pprev h = e.pprev := by
    rw [hsame.pprev, ChainState.pprev, he, bind_some]
  rw [ChainState.unlink, hpprev]
  cases hp : e.pprev with
  | none =>
    rw [pprevs_root hp]
    exact ht
  | some p =>
    obtain ⟨pe, hpe, -⟩ := hs.parent h e p he hp
    obtain ⟨rest, hrest⟩ := pprevs_child hp hpe
    rw [hrest]
    exact ht.setPnext hheaders hsame hpe none

theorem Recorded.link : Recorded (s'.link h) (linkRecord env (s.pprevs e) h t) := by
  have hpprev : s'.pprev h = e.pprev := by
    rw [hsame.pprev, ChainState.pprev, he, bind_some]
  rw [ChainState.link, hpprev]
  cases hp : e.pprev with
  | none =>
    rw [pprevs_root hp]
    exact ht
  | some p =>
    obtain ⟨pe, hpe, -⟩ := hs.parent h e p he hp
    obtain ⟨rest, hrest⟩ := pprevs_child hp hpe
    rw [hrest]
    exact ht.setPnext hheaders hsame hpe (some h)

end

end Link

/-! ## Blocks on disk -/

/-- The block of an entry can be read, and it passes `CheckBlock` at the time `nTime`. -/
def CheckedOnDisk (env : NodeEnv) (nTime : ℤ) (s : ChainState) (h : uint256) : Prop :=
  ∃ e block, s.entry h = some e ∧ readBlockFromDisk env.toChainEnv true h e = some block ∧
    ∀ nBestHeight, checkBlock env.toChainEnv ⟨nBestHeight, nTime, ∅⟩ true true block = true

/-- `CheckBlock` looks at the time only, and a later time accepts more. -/
theorem checkBlock_mono {env : ChainEnv} {ctx ctx' : NodeContext}
    {fCheckPOW fCheckMerkleRoot : Bool} {block : CBlock}
    (htime : ctx.nAdjustedTime ≤ ctx'.nAdjustedTime)
    (h : checkBlock env ctx fCheckPOW fCheckMerkleRoot block = true) :
    checkBlock env ctx' fCheckPOW fCheckMerkleRoot block = true := by
  unfold checkBlock at h ⊢
  split_ifs at h with h1 h2 h3 h4 h5 h6 h7 h8 h9
  rw [if_neg h1, if_neg h2, if_neg (by omega), if_neg (not_not.mpr h4), if_neg h5,
    if_neg (not_not.mpr h6), if_neg (not_not.mpr h7), if_neg h8, if_neg h9]

variable {h : uint256}

theorem CheckedOnDisk.of_sameTree {env : NodeEnv} {nTime : ℤ} {s' : ChainState}
    (hchecked : CheckedOnDisk env nTime s h) (hsame : SameTree s s') :
    CheckedOnDisk env nTime s' h := by
  obtain ⟨e, block, he, hread, hcheck⟩ := hchecked
  obtain ⟨next, he'⟩ := hsame.entry he
  exact ⟨_, block, he', hread, hcheck⟩

theorem readBlockFromDisk_true {env : ChainEnv} {ok : Bool} {block : CBlock}
    (hread : readBlockFromDisk env ok h e = some block) :
    readBlockFromDisk env true h e = some block := by
  cases ok with
  | true => exact hread
  | false => cases hread

/-! ## Connecting and disconnecting -/

section Moves

variable {env : NodeEnv} {o : ChainOutcome} {nTime : ℤ} {s s' : ChainState}
  {txdb txdb' : CTxDB} {h : uint256}

variable {block : CBlock}

theorem attachBlock_recorded (hs : TreeOk s) (hheaders : HeadersOk env.toChainEnv s)
    (hsame : SameTree s s') (ht : Recorded s' txdb.view.blockindex)
    (hattach : attachBlock env o s txdb h block = some txdb') :
    Recorded (s'.link h) txdb'.view.blockindex := by
  obtain ⟨e, he, hwrites⟩ := attachBlock_writes hattach
  rw [hwrites.view.1, hs.key h e he]
  exact ht.link hs hheaders hsame he

theorem attachBlock_checked (htime : o.nAdjustedTime ≤ nTime) (he : s.entry h = some e)
    (hread : readBlockFromDisk env.toChainEnv true h e = some block)
    (hattach : attachBlock env o s txdb h block = some txdb') : CheckedOnDisk env nTime s h := by
  obtain ⟨pindex, hpindex, hconnect⟩ := bind_eq_some_iff.mp hattach
  have hcheck := (connectBlock_cases hconnect).1
  exact ⟨e, block, he, hread, fun nBestHeight => checkBlock_mono htime hcheck⟩

theorem disconnectIndexed_recorded (hs : TreeOk s) (hheaders : HeadersOk env.toChainEnv s)
    (hsame : SameTree s s') (ht : Recorded s' txdb.view.blockindex)
    (hdisconnect : disconnectIndexed env o s txdb h = some txdb') :
    Recorded (s'.unlink h) txdb'.view.blockindex := by
  simp only [disconnectIndexed, bind_eq_bind, bind_eq_some_iff] at hdisconnect
  obtain ⟨e, he, block, -, hblock⟩ := hdisconnect
  rw [(disconnectBlock_writes hblock).view.1]
  exact ht.unlink hs hheaders hsame he

variable {l : List uint256} {n n' : Node} {fDeferCommit : Bool}

theorem disconnects_recorded (hs : TreeOk s) (hheaders : HeadersOk env.toChainEnv s)
    (hsame : SameTree s s') (ht : Recorded s' txdb.view.blockindex)
    (hrun : l.foldlM (disconnectIndexed env o s) txdb = some txdb') :
    Recorded (l.foldl unlink s') txdb'.view.blockindex ∧ SameTree s (l.foldl unlink s') := by
  induction l generalizing s' txdb with
  | nil =>
    cases hrun
    exact ⟨ht, hsame⟩
  | cons a l ih =>
    obtain ⟨mid, hstep, hrest⟩ := foldlM_cons_eq_some.mp hrun
    exact ih (hsame.trans (sameTree_unlink s' a))
      (disconnectIndexed_recorded hs hheaders hsame ht hstep) hrest

theorem connects_recorded (hs : TreeOk s) (hheaders : HeadersOk env.toChainEnv s)
    (htime : o.nAdjustedTime ≤ nTime) (hsame : SameTree s s')
    (ht : Recorded s' txdb.view.blockindex)
    (hrun : l.foldlM (connectIndexed env o s) txdb = some txdb') :
    Recorded (l.foldl link s') txdb'.view.blockindex ∧ SameTree s (l.foldl link s') ∧
      ∀ x ∈ l, CheckedOnDisk env nTime s x := by
  induction l generalizing s' txdb with
  | nil =>
    cases hrun
    exact ⟨ht, hsame, fun x hx => absurd hx List.not_mem_nil⟩
  | cons a l ih =>
    obtain ⟨mid, hstep, hrest⟩ := foldlM_cons_eq_some.mp hrun
    simp only [connectIndexed, bind_eq_bind, bind_eq_some_iff] at hstep
    obtain ⟨e, he, block, hread, hattach⟩ := hstep
    obtain ⟨hrecorded, htree, hchecked⟩ := ih (hsame.trans (sameTree_link s' a))
      (attachBlock_recorded hs hheaders hsame ht hattach) hrest
    refine ⟨hrecorded, htree, fun x hx => ?_⟩
    rcases List.mem_cons.mp hx with rfl | hx
    · exact attachBlock_checked htime he (readBlockFromDisk_true hread) hattach
    · exact hchecked x hx

theorem reorganize_recorded (hs : TreeOk n.chain) (hheaders : HeadersOk env.toChainEnv n.chain)
    (htime : o.nAdjustedTime ≤ nTime) (ht : Recorded n.chain n.txdb.view.blockindex)
    (hreorganize : reorganize env o n h = some n') :
    Recorded n'.chain n'.txdb.view.blockindex ∧ SameTree n.chain n'.chain ∧
      n'.txdb.view.hashBestChain = some h ∧
      ∃ t, n.chain.pindexBest = some t ∧ ∀ x, Above n.chain.pprev h x →
        CheckedOnDisk env nTime n.chain x ∨ Above n.chain.pprev t x := by
  obtain ⟨t, f, vDisconnect, vConnect, hbest, hdisconnect, hconnect, hdb, hchain⟩ :=
    reorganize_cases hreorganize
  obtain ⟨txdb1, txdb2, hdb1, hdb2, htxdb⟩ := reorganizeDb_cases hdb
  obtain ⟨hrecorded1, hsame1⟩ := disconnects_recorded hs hheaders (.refl _) ht hdb1
  obtain ⟨hrecorded2, hsame2, hchecked⟩ :=
    connects_recorded hs hheaders htime hsame1 hrecorded1 hdb2
  rw [htxdb, hchain]
  refine ⟨hrecorded2, hsame2, rfl, t, hbest, fun x hx => ?_⟩
  rcases hconnect.mem_or_above hx with hmem | habove
  · exact .inl (hchecked x hmem)
  · exact .inr (hdisconnect.above.trans habove)

theorem Committed.view (h : Committed fDeferCommit txdb txdb') : txdb'.view = txdb.view := by
  unfold Committed at h
  split at h
  · rw [h]
  · rw [h.2]
    rfl

theorem Committed.idle (h : Committed false txdb txdb') : txdb'.activeTxn = none := by
  rw [h.2]

/-- What a successful call has done to records and memory when nothing was postponed. -/
structure NewTip (env : NodeEnv) (nTime : ℤ) (n n' : Node) (h : uint256) : Prop where
  tree : SameTree n.chain n'.chain
  recorded : Recorded n'.chain n'.txdb.view.blockindex
  best : n'.txdb.view.hashBestChain = some h
  checked : ∀ x p, Above n.chain.pprev h x → n.chain.pprev x = some p →
    CheckedOnDisk env nTime n.chain x ∨ ∃ t, n.chain.pindexBest = some t ∧ Above n.chain.pprev t x

theorem bestChainStep_newTip (hs : BlockIndexOk env n.chain)
    (hheaders : HeadersOk env.toChainEnv n.chain) (htime : o.nAdjustedTime ≤ nTime)
    (hhash : env.blockHash block.toCBlockHeader = h) (he : n.chain.entry h = some e)
    (hprev : ∀ p, n.chain.pprev h = some p → block.hashPrevBlock = p)
    (hread : readBlockFromDisk env.toChainEnv true h e = some block)
    (hwork : ∀ t p, n.chain.pindexBest = some t → n.chain.pprev h = some p →
      n.chain.bnChainWork p ≤ n.chain.bnChainWork t) (ht : Recorded n.chain n.txdb.view.blockindex)
    (hstep : BestChainStep env o fDeferCommit n h block n') :
    NewTip env nTime n n' h ∧ (fDeferCommit = false → n'.txdb.activeTxn = none) := by
  cases hstep with
  | genesis txdb1 txdb2 hfirst hgenesis hview hcommit =>
    rw [hhash] at hview hgenesis
    have hroot : n.chain.pprev h = none := hgenesis ▸ hs.genesis
    refine ⟨⟨fun _ => rfl, ?_, ?_, ?_⟩, fun hdefer => (hdefer ▸ hcommit).idle⟩
    · rw [hcommit.view, hview]
      exact ht
    · rw [hcommit.view, hview]
    · intro x p hx hp
      rcases hx.cases with rfl | ⟨q, hq, -⟩
      · cases hroot.symm.trans hp
      · cases hroot.symm.trans hq
  | extend p txdb1 txdb2 txdb3 hbestPrev hp hattach hview hcommit =>
    rw [hhash] at hview
    have hpbest : p = n.chain.hashBestChain := (hprev p hp).symm.trans hbestPrev
    obtain ⟨pe, hpe⟩ := hs.tree.pprev_entry hp
    have hbest : n.chain.pindexBest = some p := by
      rw [hs.best, ← hpbest, hpe, map_some]
    refine ⟨⟨sameTree_link n.chain h, ?_, ?_, ?_⟩, fun hdefer => (hdefer ▸ hcommit).idle⟩
    · rw [hcommit.view, hview]
      exact attachBlock_recorded hs.tree hheaders (.refl _) ht hattach
    · rw [hcommit.view, hview]
    · intro x q hx hq
      rcases hx.cases with rfl | ⟨p', hp', hrest⟩
      · exact .inl (attachBlock_checked htime he hread hattach)
      · cases hp.symm.trans hp'
        exact .inr ⟨p, hbest, hrest⟩
  | switch t n1 hdefer hbest hreorganize =>
    have hnil : n.chain.postpone (n.chain.bnChainWork t) n.chain.size h = ([], h) :=
      postpone_eq_nil fun p hp => hwork t p hbest hp
    rw [hnil] at hreorganize ⊢
    obtain ⟨hrecorded, htree, hview, t', ht', hchecked⟩ :=
      reorganize_recorded hs.tree hheaders htime ht hreorganize
    obtain ⟨htip, -⟩ := reorganize_atTip hs hreorganize
    refine ⟨⟨htree, hrecorded, hview, fun x p hx hp => ?_⟩, fun _ => htip.idle⟩
    rcases hchecked x hx with hx | hx
    · exact .inl hx
    · exact .inr ⟨t', ht', hx⟩

end Moves

/-! ## The invariant of a run -/

/-- What holds between two successful calls of `AddToBlockIndex`. -/
structure IndexInv (env : NodeEnv) (nTime : ℤ) (n : Node) : Prop where
  ok : BlockIndexOk env n.chain
  headers : HeadersOk env.toChainEnv n.chain
  roots : ∀ h e, n.chain.entry h = some e → e.pprev = none → h = env.hashGenesisBlock
  work : ∀ h e, n.chain.entry h = some e →
    e.bnChainWork = e.pprev.elim 0 n.chain.bnChainWork + getBlockWork e.nBits
  maxWork : ∀ h e, n.chain.entry h = some e → e.bnChainWork ≤ n.chain.bnBestChainWork
  bestGlobals : ∀ t, n.chain.pindexBest = some t →
    n.chain.nBestHeight = n.chain.nHeight t ∧ n.chain.bnBestChainWork = n.chain.bnChainWork t
  empty : n.chain.pindexBest = none → n.chain.mapBlockIndex = ∅ ∧
    n.chain.pindexGenesisBlock = none ∧ n.chain.hashBestChain = 0 ∧ n.chain.nBestHeight = -1 ∧
    n.chain.bnBestChainWork = 0
  recorded : Recorded n.chain n.txdb.view.blockindex
  best : n.txdb.view.hashBestChain = n.chain.pindexBest
  checked : ∀ t h p, n.chain.pindexBest = some t → Above n.chain.pprev t h →
    n.chain.pprev h = some p → CheckedOnDisk env nTime n.chain h

/-- A block that the callers of `AddToBlockIndex` pass on: `AcceptBlock` has found its parent and
written it to disk, and `LoadBlockIndex` starts with the genesis block. -/
structure Admissible (env : NodeEnv) (nTime : ℤ) (s : ChainState) (nFile nBlockPos : ℕ)
    (block : CBlock) (o : ChainOutcome) : Prop where
  stored : openBlockFile nFile = true ∧ env.blockFileBlock nFile nBlockPos = some block
  parent : block.hashPrevBlock ∈ s.mapBlockIndex ∨
    env.blockHash block.toCBlockHeader = env.hashGenesisBlock ∧ block.hashPrevBlock = 0 ∧
      block.nBits = 0x1e0ffff0
  time : o.nAdjustedTime ≤ nTime

/-! ## A new leaf -/

/-- The entry `e` fits into `s` as a new leaf for the block, under the hash `h`. -/
structure NewLeaf (env : NodeEnv) (s : ChainState) (h : uint256) (e : CBlockIndex)
    (block : CBlock) : Prop where
  fresh : s.entry h = none
  nonzero : h ≠ 0
  key : e.phashBlock = some h
  pnext : e.pnext = none
  header : env.blockHash (CDiskBlockIndex.ofBlockIndex e).header = h
  work : e.bnChainWork = e.pprev.elim 0 s.bnChainWork + getBlockWork e.nBits
  child : ∀ p, e.pprev = some p → h ≠ env.hashGenesisBlock ∧ block.hashPrevBlock = p ∧
    ∃ pe, s.entry p = some pe ∧ e.nHeight = pe.nHeight + 1
  root : e.pprev = none → h = env.hashGenesisBlock ∧ e.nHeight = 0 ∧ 0 < e.bnChainWork ∧
    s.pindexBest = none

/-- `mapBlockIndex.insert(make_pair(hash, pindexNew))`. -/
def insertEntry (s : ChainState) (h : uint256) (e : CBlockIndex) : ChainState :=
  { s with mapBlockIndex := s.mapBlockIndex.insert h e }

section Leaf

variable {env : NodeEnv} {nTime : ℤ} {n : Node} {h : uint256} {e : CBlockIndex} {block : CBlock}

theorem entry_insertEntry (s : ChainState) (h : uint256) (e : CBlockIndex) (a : uint256) :
    (insertEntry s h e).entry a = if a = h then some e else s.entry a :=
  Table.lookup_insert_ite a h e s.mapBlockIndex

variable {a : uint256} {ae : CBlockIndex} {s : ChainState}

theorem entry_insertEntry_of_some (hfresh : s.entry h = none) (ha : s.entry a = some ae) :
    (insertEntry s h e).entry a = some ae := by
  have hne : a ≠ h := by
    rintro rfl
    cases hfresh.symm.trans ha
  rw [entry_insertEntry, if_neg hne, ha]

/-- An entry of the grown index is the new one or an old one. -/
theorem entry_insertEntry_cases (ha : (insertEntry s h e).entry a = some ae) :
    (a = h ∧ ae = e) ∨ s.entry a = some ae := by
  rw [entry_insertEntry] at ha
  split at ha
  · next heq =>
    cases ha
    exact .inl ⟨heq, rfl⟩
  · exact .inr ha

theorem pprev_insertEntry (s : ChainState) (ha : a ≠ h) :
    (insertEntry s h e).pprev a = s.pprev a := by
  rw [pprev, entry_insertEntry, if_neg ha, pprev]

theorem bnChainWork_insertEntry (s : ChainState) (ha : a ≠ h) :
    (insertEntry s h e).bnChainWork a = s.bnChainWork a := by
  rw [bnChainWork, entry_insertEntry, if_neg ha, bnChainWork]

theorem nHeight_insertEntry (s : ChainState) (ha : a ≠ h) :
    (insertEntry s h e).nHeight a = s.nHeight a := by
  rw [nHeight, entry_insertEntry, if_neg ha, nHeight]

theorem pnext_insertEntry (hfresh : s.entry h = none) (hnext : e.pnext = none) :
    (insertEntry s h e).pnext = s.pnext := by
  funext a
  unfold pnext
  rw [entry_insertEntry]
  split
  · next heq => rw [heq, hfresh, bind_some, hnext, bind_none]
  · rfl

theorem IndexInv.best_ne_fresh (hn : IndexInv env nTime n) (hleaf : NewLeaf env n.chain h e block) :
    h ≠ n.chain.hashBestChain ∧ n.chain.pindexBest ≠ some h := by
  constructor
  · rintro heq
    cases hbest : n.chain.pindexBest with
    | none => exact hleaf.nonzero (heq.trans (hn.empty hbest).2.2.1)
    | some t =>
      obtain ⟨rfl, te, hte⟩ := hn.ok.best_eq hbest
      cases (heq ▸ hleaf.fresh).symm.trans hte
  · intro hbest
    obtain ⟨-, te, hte⟩ := hn.ok.best_eq hbest
    cases hleaf.fresh.symm.trans hte

theorem treeOk_insertEntry (hs : TreeOk n.chain) (hleaf : NewLeaf env n.chain h e block) :
    TreeOk (insertEntry n.chain h e) := by
  constructor
  · intro a ae ha
    rcases entry_insertEntry_cases ha with ⟨rfl, rfl⟩ | ha
    · exact hleaf.key
    · exact hs.key a ae ha
  · intro a ae p ha hp
    rcases entry_insertEntry_cases ha with ⟨rfl, rfl⟩ | ha
    · obtain ⟨-, -, pe, hpe, hheight⟩ := hleaf.child p hp
      exact ⟨pe, entry_insertEntry_of_some hleaf.fresh hpe, hheight⟩
    · obtain ⟨pe, hpe, hheight⟩ := hs.parent a ae p ha hp
      exact ⟨pe, entry_insertEntry_of_some hleaf.fresh hpe, hheight⟩
  · intro a ae ha hp
    rcases entry_insertEntry_cases ha with ⟨rfl, rfl⟩ | ha
    · exact (hleaf.root hp).2.1
    · exact hs.root a ae ha hp

theorem above_insertEntry (hs : TreeOk n.chain) (hleaf : NewLeaf env n.chain h e block)
    {b : uint256} (ha : a ≠ h) :
    Above (insertEntry n.chain h e).pprev a b ↔ Above n.chain.pprev a b :=
  Above.leaf (fun _ => pprev_insertEntry n.chain) (hs.pprev_ne_fresh hleaf.fresh) ha

section

variable (hn : IndexInv env nTime n) (hleaf : NewLeaf env n.chain h e block)
include hn hleaf

theorem blockIndexOk_insertEntry : BlockIndexOk env (insertEntry n.chain h e) := by
  have hfresh := hn.ok.tree.pprev_ne_fresh hleaf.fresh
  obtain ⟨hhash, hbest⟩ := hn.best_ne_fresh hleaf
  refine ⟨treeOk_insertEntry hn.ok.tree hleaf, ?_, ?_, ?_, ?_⟩
  · by_cases hgenesis : env.hashGenesisBlock = h
    · rw [hgenesis, pprev, entry_insertEntry, if_pos rfl, bind_some]
      cases hp : e.pprev with
      | none => rfl
      | some p => exact absurd hgenesis.symm (hleaf.child p hp).1
    · rw [pprev_insertEntry _ hgenesis]
      exact hn.ok.genesis
  · change n.chain.pindexBest = _
    rw [hn.ok.best, entry_insertEntry]
    exact congrArg _ (if_neg hhash.symm).symm
  · rw [pnext_insertEntry hleaf.fresh hleaf.pnext]
    exact hn.ok.linked.leaf (fun _ => pprev_insertEntry n.chain) hfresh hbest
  · intro t r ht hr hroot
    have hth : t ≠ h := fun heq => hbest (heq ▸ ht)
    rw [above_insertEntry hn.ok.tree hleaf hth] at hr
    rw [pprev_insertEntry _ (hr.ne_leaf hfresh hth)] at hroot
    exact hn.ok.rooted t r ht hr hroot

theorem headersOk_insertEntry : HeadersOk env.toChainEnv (insertEntry n.chain h e) := by
  intro a ae ha
  rcases entry_insertEntry_cases ha with ⟨rfl, rfl⟩ | ha
  · exact hleaf.header
  · exact hn.headers a ae ha

theorem roots_insertEntry
    (ha : (insertEntry n.chain h e).entry a = some ae) (hp : ae.pprev = none) :
    a = env.hashGenesisBlock := by
  rcases entry_insertEntry_cases ha with ⟨rfl, rfl⟩ | ha
  · exact (hleaf.root hp).1
  · exact hn.roots a ae ha hp

theorem work_insertEntry (ha : (insertEntry n.chain h e).entry a = some ae) :
    ae.bnChainWork =
      ae.pprev.elim 0 (insertEntry n.chain h e).bnChainWork + getBlockWork ae.nBits := by
  have hparent : ∀ p pe, n.chain.entry p = some pe →
      (insertEntry n.chain h e).bnChainWork p = n.chain.bnChainWork p := by
    intro p pe hpe
    refine bnChainWork_insertEntry _ ?_
    rintro rfl
    cases hleaf.fresh.symm.trans hpe
  rcases entry_insertEntry_cases ha with ⟨rfl, rfl⟩ | ha
  · rw [hleaf.work]
    cases hp : ae.pprev with
    | none => rfl
    | some p =>
      obtain ⟨-, -, pe, hpe, -⟩ := hleaf.child p hp
      rw [elim_some, elim_some, hparent p pe hpe]
  · rw [hn.work a ae ha]
    cases hp : ae.pprev with
    | none => rfl
    | some p =>
      obtain ⟨pe, hpe, -⟩ := hn.ok.tree.parent a ae p ha hp
      rw [elim_some, elim_some, hparent p pe hpe]

end

/-- `mapBlockIndex.insert(make_pair(hash, pindexNew))`. -/
theorem Recorded.insertEntry {t : Table uint256 CDiskBlockIndex} (ht : Recorded s t) :
    Recorded (insertEntry s h e) (t.insert h (CDiskBlockIndex.ofBlockIndex e)) := by
  intro a
  rw [Table.lookup_insert_ite, entry_insertEntry]
  split
  · rfl
  · exact ht a

/-- `mapBlockIndex.insert(make_pair(hash, pindexNew))`. -/
theorem CheckedOnDisk.insertEntry (hfresh : s.entry h = none)
    (hchecked : CheckedOnDisk env nTime s a) : CheckedOnDisk env nTime (insertEntry s h e) a := by
  obtain ⟨ae, block, ha, hread, hcheck⟩ := hchecked
  exact ⟨ae, block, entry_insertEntry_of_some hfresh ha, hread, hcheck⟩

end Leaf

/-! ## One successful call -/

section Step

variable {env : NodeEnv} {o : ChainOutcome} {nTime : ℤ} {n n' : Node} {h : uint256}
  {e : CBlockIndex} {block : CBlock}

theorem IndexInv.parent_work (hn : IndexInv env nTime n) (hleaf : NewLeaf env n.chain h e block)
    {t p : uint256} (ht : n.chain.pindexBest = some t) (hp : e.pprev = some p) :
    (insertEntry n.chain h e).bnChainWork p ≤ (insertEntry n.chain h e).bnChainWork t := by
  obtain ⟨-, -, pe, hpe, -⟩ := hleaf.child p hp
  have hpne : p ≠ h := by
    rintro rfl
    cases hleaf.fresh.symm.trans hpe
  have htne : t ≠ h := fun heq => (hn.best_ne_fresh hleaf).2 (heq ▸ ht)
  have hmax := hn.maxWork p pe hpe
  rw [bnChainWork_insertEntry _ hpne, bnChainWork_insertEntry _ htne,
    ← (hn.bestGlobals t ht).2, bnChainWork, hpe]
  exact hmax

theorem pprev_insertEntry_self (s : ChainState) : (insertEntry s h e).pprev h = e.pprev := by
  rw [pprev, entry_insertEntry, if_pos rfl, bind_some]

theorem entry_insertEntry_self (s : ChainState) : (insertEntry s h e).entry h = some e := by
  rw [entry_insertEntry, if_pos rfl]

variable {txdb : CTxDB} {nBlockPos nFile : ℕ} {s : ChainState}

section

variable (hn : IndexInv env nTime n) (hleaf : NewLeaf env n.chain h e block)
include hn hleaf

theorem IndexInv.side (hwork : e.bnChainWork ≤ n.chain.bnBestChainWork)
    (hrecorded : Recorded (insertEntry n.chain h e) txdb.view.blockindex)
    (hbest : txdb.view.hashBestChain = n.txdb.view.hashBestChain) :
    IndexInv env nTime ⟨insertEntry n.chain h e, txdb⟩ := by
  have htip : ∀ t, n.chain.pindexBest = some t → t ≠ h :=
    fun t ht heq => (hn.best_ne_fresh hleaf).2 (heq ▸ ht)
  refine
    { ok := blockIndexOk_insertEntry hn hleaf
      headers := headersOk_insertEntry hn hleaf
      roots := fun a ae ha => roots_insertEntry hn hleaf ha
      work := fun a ae ha => work_insertEntry hn hleaf ha
      maxWork := fun a ae ha => ?_
      bestGlobals := fun t ht => ?_
      empty := fun hnone => ?_
      recorded := hrecorded
      best := hbest.trans hn.best
      checked := fun t a p ht hta hp => ?_ }
  · rcases entry_insertEntry_cases ha with ⟨rfl, rfl⟩ | ha
    · exact hwork
    · exact hn.maxWork a ae ha
  · rw [nHeight_insertEntry _ (htip t ht), bnChainWork_insertEntry _ (htip t ht)]
    exact hn.bestGlobals t ht
  · obtain ⟨hmap, -, -, -, hzero⟩ := hn.empty hnone
    cases hp : e.pprev with
    | none =>
      have hpos := (hleaf.root hp).2.2.1
      omega
    | some p =>
      obtain ⟨-, -, pe, hpe, -⟩ := hleaf.child p hp
      rw [entry, hmap] at hpe
      cases hpe
  · have hfresh := hn.ok.tree.pprev_ne_fresh hleaf.fresh
    rw [above_insertEntry hn.ok.tree hleaf (htip t ht)] at hta
    rw [pprev_insertEntry _ (hta.ne_leaf hfresh (htip t ht))] at hp
    exact (hn.checked t a p ht hta hp).insertEntry hleaf.fresh

theorem IndexInv.newBest {n1 : Node} (hwork : n.chain.bnBestChainWork < e.bnChainWork)
    (htip : NewTip env nTime ⟨insertEntry n.chain h e, txdb⟩ n1 h)
    (hok : BlockIndexOk env (newBestBlock o h h n1).chain) :
    IndexInv env nTime (newBestBlock o h h n1) := by
  obtain ⟨htree, hrecorded, hbest, hchecked⟩ := htip
  have hback : ∀ a ae, (newBestBlock o h h n1).chain.entry a = some ae →
      ∃ next, (insertEntry n.chain h e).entry a = some { ae with pnext := next } :=
    fun a ae ha => htree.symm.entry ha
  have hnew : (newBestBlock o h h n1).chain.bnBestChainWork = e.bnChainWork := by
    change n1.chain.bnChainWork h = _
    rw [htree.bnChainWork, bnChainWork, entry_insertEntry_self, elim_some]
  refine
    { ok := hok
      headers := fun a ae ha => ?_
      roots := fun a ae ha hp => ?_
      work := fun a ae ha => ?_
      maxWork := fun a ae ha => ?_
      bestGlobals := fun t ht => ?_
      empty := fun hnone => ?_
      recorded := hrecorded
      best := hbest
      checked := fun t a p ht hta hp => ?_ }
  · obtain ⟨next, ha'⟩ := hback a ae ha
    have hheader := headersOk_insertEntry hn hleaf a _ ha'
    exact hheader
  · obtain ⟨next, ha'⟩ := hback a ae ha
    exact roots_insertEntry hn hleaf ha' hp
  · obtain ⟨next, ha'⟩ := hback a ae ha
    have hstep := work_insertEntry hn hleaf ha'
    rw [← htree.bnChainWork] at hstep
    exact hstep
  · rw [hnew]
    obtain ⟨next, ha'⟩ := hback a ae ha
    rcases entry_insertEntry_cases ha' with ⟨rfl, rfl⟩ | ha'
    · exact le_rfl
    · have hmax := hn.maxWork a _ ha'
      exact hmax.trans hwork.le
  · cases ht
    exact ⟨rfl, rfl⟩
  · cases hnone
  · cases ht
    change Above n1.chain.pprev h a at hta
    change n1.chain.pprev a = some p at hp
    rw [htree.pprev] at hta hp
    suffices hbefore : CheckedOnDisk env nTime (insertEntry n.chain h e) a from
      hbefore.of_sameTree htree
    rcases hchecked a p hta hp with hnow | ⟨t, ht, hta'⟩
    · exact hnow
    · have htne : t ≠ h := fun heq => (hn.best_ne_fresh hleaf).2 (heq ▸ ht)
      have hfresh := hn.ok.tree.pprev_ne_fresh hleaf.fresh
      rw [above_insertEntry hn.ok.tree hleaf htne] at hta'
      rw [pprev_insertEntry _ (hta'.ne_leaf hfresh htne)] at hp
      exact (hn.checked t a p ht hta' hp).insertEntry hleaf.fresh

theorem writeNewBlock_inv {fBatch : Bool} (htime : o.nAdjustedTime ≤ nTime)
    (hhash : env.blockHash block.toCBlockHeader = h)
    (hread : readBlockFromDisk env.toChainEnv true h e = some block)
    (hview : txdb.view = n.txdb.view)
    (hret : writeNewBlock env o fBatch ⟨insertEntry n.chain h e, txdb⟩ h e block = (true, n')) :
    IndexInv env nTime n' ∧ (fBatch = false → n'.txdb.activeTxn = none) := by
  unfold writeNewBlock at hret
  split at hret
  · cases hret
  · next txdb1 hwrite =>
    have hview1 : txdb1.view = { n.txdb.view with
        blockindex := n.txdb.view.blockindex.insert h (CDiskBlockIndex.ofBlockIndex e) } := by
      unfold CTxDB.writeBlockIndex at hwrite
      split at hwrite
      · cases hwrite
        rw [CTxDB.view_update, hview, hleaf.header]
      · cases hwrite
    have hrecorded : Recorded (insertEntry n.chain h e) txdb1.view.blockindex := by
      rw [hview1]
      exact hn.recorded.insertEntry
    have hok := blockIndexOk_insertEntry hn hleaf
    have hself := @entry_insertEntry_self h e n.chain
    have hprev : ∀ p, (insertEntry n.chain h e).pprev h = some p → block.hashPrevBlock = p :=
      fun p hp => (hleaf.child p (pprev_insertEntry_self n.chain ▸ hp)).2.1
    have hparent : ∀ t p, (insertEntry n.chain h e).pindexBest = some t →
        (insertEntry n.chain h e).pprev h = some p →
        (insertEntry n.chain h e).bnChainWork p ≤ (insertEntry n.chain h e).bnChainWork t :=
      fun t p ht hp => hn.parent_work hleaf ht (pprev_insertEntry_self n.chain ▸ hp)
    dsimp only at hret
    split at hret
    · next hwork =>
      obtain ⟨txdb2, n1, hbegin, hstep, rfl⟩ := setBestChain_step hret
      cases hbegin
      obtain ⟨htip, hidle⟩ := bestChainStep_newTip hok (headersOk_insertEntry hn hleaf) htime
        hhash hself hprev hread hparent hrecorded hstep
      obtain ⟨-, -, hend⟩ := setBestChain_ok hok ⟨hhash, ⟨e, hself⟩, hprev⟩ hret
      rw [hhash] at hend ⊢
      rcases hend with ⟨-, hok', -⟩ | ⟨hfail, -⟩
      · exact ⟨hn.newBest hleaf hwork htip hok', hidle⟩
      · refine absurd (fun txdb t n2 _ ht hreorganize => ?_) hfail
        have hnil : postponed (insertEntry n.chain h e) t h = ([], h) :=
          postpone_eq_nil fun p hp => hparent t p ht hp
        rw [hnil]
        rfl
    · next hwork =>
      generalize hcommit : txdb1.txnCommit (o.txnCommit h) = result at hret
      obtain ⟨fCommitted, txdb2⟩ := result
      cases hret
      obtain ⟨-, -, rfl⟩ := txnCommit_eq_true hcommit
      have hbest := congrArg ChainRecords.hashBestChain hview1
      exact ⟨hn.side hleaf (not_lt.mp hwork) hrecorded hbest, fun _ => rfl⟩

end

theorem IndexInv.genesis_above (hn : IndexInv env nTime n) (he : n.chain.entry h = some e) :
    Above n.chain.pprev h env.hashGenesisBlock ∧
      ∃ ge, n.chain.entry env.hashGenesisBlock = some ge := by
  obtain ⟨r, hr, hroot⟩ := hn.ok.tree.exists_root he
  have hre : ∃ re, n.chain.entry r = some re := by
    rcases Relation.ReflTransGen.cases_tail hr with rfl | ⟨c, -, hcr⟩
    · exact ⟨e, he⟩
    · exact hn.ok.tree.pprev_entry hcr
  obtain ⟨re, hre⟩ := hre
  have hreroot : re.pprev = none := by
    rwa [pprev, hre] at hroot
  rw [← hn.roots r re hre hreroot]
  exact ⟨hr, re, hre⟩

variable {hash : uint256}

theorem newBlockIndex_child {pe : CBlockIndex} (hne : block.hashPrevBlock ≠ hash)
    (hpe : s.entry block.hashPrevBlock = some pe) :
    newBlockIndex s hash nFile nBlockPos block =
      { CBlockIndex.ofBlock hash nFile nBlockPos block with
        pprev := some block.hashPrevBlock
        nHeight := pe.nHeight + 1
        bnChainWork := pe.bnChainWork + getBlockWork block.nBits } := by
  unfold newBlockIndex
  dsimp only
  rw [Table.lookup_insert_ite, if_neg hne, show s.mapBlockIndex.lookup _ = _ from hpe]
  rfl

theorem newBlockIndex_root (hne : block.hashPrevBlock ≠ hash)
    (hnone : s.entry block.hashPrevBlock = none) :
    newBlockIndex s hash nFile nBlockPos block =
      { CBlockIndex.ofBlock hash nFile nBlockPos block with
        bnChainWork := getBlockWork block.nBits } := by
  unfold newBlockIndex
  dsimp only
  rw [Table.lookup_insert_ite, if_neg hne, show s.mapBlockIndex.lookup _ = _ from hnone]
  rfl

theorem newBlockIndex_leaf (hnonzero : ∀ header, env.blockHash header ≠ 0)
    (hn : IndexInv env nTime n) (hhash : env.blockHash block.toCBlockHeader = h)
    (hblock : Admissible env nTime n.chain nFile nBlockPos block o)
    (hfresh : h ∉ n.chain.mapBlockIndex) :
    NewLeaf env n.chain h (newBlockIndex n.chain h nFile nBlockPos block) block := by
  have hnone : n.chain.entry h = none := Finmap.lookup_eq_none.mpr hfresh
  have hh : h ≠ 0 := hhash ▸ hnonzero _
  rcases hblock.parent with hparent | ⟨hgenesis, hprev, hbits⟩
  · obtain ⟨pe, hpe⟩ := Finmap.mem_iff.mp hparent
    change n.chain.entry block.hashPrevBlock = some pe at hpe
    have hwork : n.chain.bnChainWork block.hashPrevBlock = pe.bnChainWork := by
      rw [bnChainWork, hpe, elim_some]
    have hne : block.hashPrevBlock ≠ h := fun heq => hfresh (heq ▸ hparent)
    rw [newBlockIndex_child hne hpe]
    refine ⟨hnone, hh, rfl, rfl, hhash, ?_, fun p hp => ?_, nofun⟩
    · rw [← hwork]
      rfl
    · cases hp
      refine ⟨?_, rfl, pe, hpe, rfl⟩
      rintro rfl
      obtain ⟨-, ge, hge⟩ := hn.genesis_above hpe
      cases hnone.symm.trans hge
  · have hzero : n.chain.entry block.hashPrevBlock = none := by
      rw [hprev]
      cases hz : n.chain.entry 0 with
      | none => rfl
      | some ze => exact absurd (hn.headers 0 ze hz) (hnonzero _)
    rw [newBlockIndex_root (hprev ▸ hh.symm) hzero]
    refine ⟨hnone, hh, rfl, rfl, ?_, (Nat.zero_add _).symm, nofun,
      fun _ => ⟨hhash.symm.trans hgenesis, rfl, ?_, ?_⟩⟩
    · change env.blockHash { block.toCBlockHeader with hashPrevBlock := 0 } = h
      rw [← hprev]
      exact hhash
    · change 0 < getBlockWork block.nBits
      rw [hbits]
      decide
    · cases hbest : n.chain.pindexBest with
      | none => rfl
      | some t =>
        obtain ⟨-, te, hte⟩ := hn.ok.best_eq hbest
        obtain ⟨-, ge, hge⟩ := hn.genesis_above hte
        rw [← hgenesis, hhash, hnone] at hge
        cases hge

theorem readBlockFromDisk_newBlockIndex
    (hstored : openBlockFile nFile = true ∧ env.blockFileBlock nFile nBlockPos = some block)
    (hhash : env.blockHash block.toCBlockHeader = h) :
    readBlockFromDisk env.toChainEnv true h (newBlockIndex s h nFile nBlockPos block) =
      some block := by
  obtain ⟨hfile, hpos⟩ : (newBlockIndex s h nFile nBlockPos block).nFile = nFile ∧
      (newBlockIndex s h nFile nBlockPos block).nBlockPos = nBlockPos := by
    unfold newBlockIndex
    dsimp only
    split <;> exact ⟨rfl, rfl⟩
  rw [readBlockFromDisk, hfile, hpos, hstored.1, hstored.2]
  simp [hhash]

theorem IndexInv.coinBase (hn : IndexInv env nTime n) (hash : uint256) :
    IndexInv env nTime ⟨{ n.chain with hashPrevBestCoinBase := hash }, n.txdb⟩ :=
  ⟨⟨⟨hn.ok.tree.key, hn.ok.tree.parent, hn.ok.tree.root⟩, hn.ok.genesis, hn.ok.best, hn.ok.linked,
    hn.ok.rooted⟩, hn.headers, hn.roots, hn.work, hn.maxWork, hn.bestGlobals, hn.empty, hn.recorded,
    hn.best, hn.checked⟩

theorem addAlone_inv (hn : IndexInv env nTime n) (hleaf : NewLeaf env n.chain h e block)
    (htime : o.nAdjustedTime ≤ nTime) (hhash : env.blockHash block.toCBlockHeader = h)
    (hread : readBlockFromDisk env.toChainEnv true h e = some block)
    (hret : addAlone env o ⟨insertEntry n.chain h e, n.txdb⟩ h e block = (true, n')) :
    IndexInv env nTime n' ∧ n'.txdb.activeTxn = none := by
  unfold addAlone at hret
  split at hret
  · cases hret
  · next txdb hbegin =>
    obtain ⟨hactive, rfl⟩ := txnBegin_eq_some hbegin
    have hview : CTxDB.view { n.txdb with activeTxn := some n.txdb.stored } = n.txdb.view := by
      rw [CTxDB.view, getD_some, CTxDB.view, hactive, getD_none]
    split at hret
    · cases hret
    · next n1 hwrite =>
      obtain ⟨hinv, hidle⟩ := writeNewBlock_inv hn hleaf htime hhash hread hview hwrite
      split at hret
      · cases hret
        exact ⟨hinv.coinBase _, hidle rfl⟩
      · cases hret
        exact ⟨hinv, hidle rfl⟩

/-- A successful call keeps the invariant, and without a batch it leaves no transaction open. -/
theorem addToBlockIndex_inv {batch batch' : CChainImportBatch}
    (hnonzero : ∀ header, env.blockHash header ≠ 0) (hn : IndexInv env nTime n)
    (hblock : Admissible env nTime n.chain nFile nBlockPos block o)
    (hret : addToBlockIndex env o nFile nBlockPos block n batch = (true, n', batch')) :
    IndexInv env nTime n' ∧ batch'.fActive = batch.fActive ∧
      (batch.fActive = false → n'.txdb.activeTxn = none) := by
  unfold addToBlockIndex at hret
  generalize hhash : env.blockHash block.toCBlockHeader = h at hret
  dsimp only at hret
  split at hret
  · cases hret
  · next hfresh =>
    have hleaf := newBlockIndex_leaf hnonzero hn hhash hblock hfresh
    have hread : readBlockFromDisk env.toChainEnv true h
        (newBlockIndex n.chain h nFile nBlockPos block) = some block :=
      readBlockFromDisk_newBlockIndex hblock.stored hhash
    split at hret
    · next hactive =>
      split at hret
      · generalize hwrite : writeNewBlock env o true _ h _ block = result at hret
        obtain ⟨fWritten, n1⟩ := result
        cases hret
        have hinv := writeNewBlock_inv hn hleaf hblock.time hhash hread rfl hwrite
        refine ⟨hinv.1, rfl, fun hidle => ?_⟩
        cases hactive.symm.trans hidle
      · cases hret
    · generalize hadd : addAlone env o _ h _ block = result at hret
      obtain ⟨fAdded, n1⟩ := result
      cases hret
      obtain ⟨hinv, hidle⟩ := addAlone_inv hn hleaf hblock.time hhash hread hadd
      exact ⟨hinv, rfl, fun _ => hidle⟩

end Step

/-! ## Runs -/

def Node.fresh : Node := ⟨initial, ⟨⟨∅, ∅, none, none⟩, none⟩⟩

/-- The states that successful calls lead to, for single blocks or under batches that are
committed. -/
inductive AddRun (env : NodeEnv) (nTime : ℤ) : Node → CChainImportBatch → Prop where
  | start : AddRun env nTime Node.fresh CChainImportBatch.new
  | add {n : Node} {batch : CChainImportBatch} (o : ChainOutcome) (nFile nBlockPos : ℕ)
      (block : CBlock) (hrun : AddRun env nTime n batch)
      (hblock : Admissible env nTime n.chain nFile nBlockPos block o)
      (hsuccess : (addToBlockIndex env o nFile nBlockPos block n batch).1 = true) :
      AddRun env nTime (addToBlockIndex env o nFile nBlockPos block n batch).2.1
        (addToBlockIndex env o nFile nBlockPos block n batch).2.2
  | addBytes {n : Node} {batch : CChainImportBatch} (nBlockBytes : ℕ)
      (hrun : AddRun env nTime n batch) : AddRun env nTime n (batch.addBytes nBlockBytes)
  | beginBatch {n : Node} {batch : CChainImportBatch} (ok : Bool)
      (hrun : AddRun env nTime n batch) (hsuccess : (batch.beginBatch ok n).1 = true) :
      AddRun env nTime (batch.beginBatch ok n).2.1 (batch.beginBatch ok n).2.2
  | commitBatch {n : Node} {batch : CChainImportBatch} (ok : Bool)
      (hrun : AddRun env nTime n batch) (hsuccess : (batch.commitBatch ok n).1 = true) :
      AddRun env nTime (batch.commitBatch ok n).2.1 (batch.commitBatch ok n).2.2

section Runs

variable {env : NodeEnv} {nTime : ℤ} {n : Node} {batch : CChainImportBatch}

theorem indexInv_fresh : IndexInv env nTime Node.fresh := by
  have hnone : ∀ h, Node.fresh.chain.entry h = none := fun h => Finmap.lookup_empty h
  have habsent : ∀ {h : uint256} {e : CBlockIndex} {P : Prop},
      Node.fresh.chain.entry h = some e → P := by
    intro h e P he
    cases (hnone h).symm.trans he
  refine
    { ok := ⟨⟨fun _ _ => habsent, fun _ _ _ he => habsent he, fun _ _ => habsent⟩, ?_, ?_, ?_,
        nofun⟩
      headers := fun _ _ => habsent
      roots := fun _ _ => habsent
      work := fun _ _ => habsent
      maxWork := fun _ _ => habsent
      bestGlobals := nofun
      empty := fun _ => ⟨rfl, rfl, rfl, rfl, rfl⟩
      recorded := fun h => ?_
      best := rfl
      checked := nofun }
  · rw [pprev, hnone, bind_none]
  · rfl
  · intro a b
    rw [pnext, hnone, pprev, hnone]
    simp
  · exact Finmap.lookup_empty h

variable {batch' : CChainImportBatch} {n' : Node} {ok : Bool}

theorem beginBatch_inv (hn : IndexInv env nTime n)
    (hret : batch.beginBatch ok n = (true, n', batch')) :
    IndexInv env nTime n' ∧ batch'.fActive = true := by
  unfold CChainImportBatch.beginBatch at hret
  split at hret
  · cases hret
  · split at hret
    · cases hret
    · next txdb hbegin =>
      cases hret
      obtain ⟨hactive, rfl⟩ := txnBegin_eq_some hbegin
      have hview : n.txdb.view = n.txdb.stored := by
        rw [CTxDB.view, hactive, getD_none]
      refine ⟨{ hn with recorded := ?_, best := ?_ }, rfl⟩
      · exact hview ▸ hn.recorded
      · exact hview ▸ hn.best

theorem commitBatch_inv (hn : IndexInv env nTime n)
    (hidle : batch.fActive = false → n.txdb.activeTxn = none)
    (hret : batch.commitBatch ok n = (true, n', batch')) :
    IndexInv env nTime n' ∧ n'.txdb.activeTxn = none := by
  unfold CChainImportBatch.commitBatch at hret
  split at hret
  · next hactive =>
    cases hret
    exact ⟨hn, hidle (Bool.not_eq_true _ ▸ hactive)⟩
  · split at hret
    · cases hret
    · next txdb hcommit =>
      cases hret
      obtain ⟨-, -, rfl⟩ := txnCommit_eq_true hcommit
      have hcommitted : IndexInv env nTime ⟨n.chain, ⟨n.txdb.view, none⟩⟩ :=
        { hn with recorded := hn.recorded, best := hn.best }
      exact ⟨hcommitted.coinBase _, rfl⟩

theorem addRun_inv (hnonzero : ∀ header, env.blockHash header ≠ 0)
    (hrun : AddRun env nTime n batch) :
    IndexInv env nTime n ∧ (batch.fActive = false → n.txdb.activeTxn = none) := by
  induction hrun with
  | start => exact ⟨indexInv_fresh, fun _ => rfl⟩
  | @add n batch o nFile nBlockPos block hrun hblock hsuccess ih =>
    have hret : addToBlockIndex env o nFile nBlockPos block n batch = (true, _, _) :=
      Prod.ext hsuccess rfl
    obtain ⟨hinv, hactive, hidle⟩ := addToBlockIndex_inv hnonzero ih.1 hblock hret
    exact ⟨hinv, fun hnot => hidle (hactive ▸ hnot)⟩
  | addBytes nBlockBytes hrun ih => exact ih
  | @beginBatch n batch ok hrun hsuccess ih =>
    obtain ⟨hinv, hactive⟩ := beginBatch_inv ih.1 (Prod.ext hsuccess rfl)
    exact ⟨hinv, fun hnot => by cases hactive.symm.trans hnot⟩
  | @commitBatch n batch ok hrun hsuccess ih =>
    obtain ⟨hinv, hidle⟩ := commitBatch_inv ih.1 ih.2 (Prod.ext hsuccess rfl)
    exact ⟨hinv, fun _ => hidle⟩

end Runs

end Phoenixcoin.Analysis
