import Phoenixcoin.Model.BlockTree
import Phoenixcoin.Program.AcceptBlock
import Phoenixcoin.Program.Miner

/-!
# Mined blocks

What `CreateNewBlock` and its miner put into a block, and what `AcceptBlock` asks of its place in
the chain. The coinbase height, the version and the required work always fit. The time stamp need
not: `UpdateTime` goes one second past the median only, and from the first soft fork on the block
limiter asks for more.
-/

set_option autoImplicit false

namespace Phoenixcoin.Analysis

open Lib Program Model ChainState List Option

/-! ## The priority queue -/

theorem popHeap_perm (byFee : Bool) (best : TxPriority) (rest : List TxPriority) :
    ((popHeap byFee best rest).1 :: (popHeap byFee best rest).2).Perm (best :: rest) := by
  induction rest generalizing best with
  | nil => rfl
  | cons next rest ih =>
    rw [popHeap]
    split
    · exact (Perm.swap _ _ _).trans ((ih next).cons best)
    · exact (Perm.swap _ _ _).trans (((ih best).cons next).trans (Perm.swap _ _ _))

theorem releaseOrphans_all {hash : uint256} {vOrphan : List COrphan} {P : TxPriority → Prop}
    (h : ∀ orphan ∈ vOrphan, P orphan.toTxPriority) :
    (∀ orphan ∈ (releaseOrphans hash vOrphan).1, P orphan.toTxPriority) ∧
      ∀ entry ∈ (releaseOrphans hash vOrphan).2, P entry := by
  have herased : ∀ orphan ∈ vOrphan.map fun orphan =>
      { orphan with setDependsOn := orphan.setDependsOn.erase hash }, P orphan.toTxPriority := by
    intro orphan horphan
    obtain ⟨old, hold, rfl⟩ := mem_map.mp horphan
    exact h old hold
  constructor
  · intro orphan horphan
    exact herased orphan (mem_of_mem_filter horphan)
  · intro entry hentry
    obtain ⟨orphan, horphan, rfl⟩ := mem_map.mp hentry
    exact herased orphan (mem_of_mem_filter horphan)

theorem releaseOrphans_length (hash : uint256) (vOrphan : List COrphan) :
    (releaseOrphans hash vOrphan).2.length + (releaseOrphans hash vOrphan).1.length =
      vOrphan.length := by
  unfold releaseOrphans
  simp only [length_map]
  rw [← countP_eq_length_filter, ← countP_eq_length_filter]
  have hsplit := @length_eq_countP_add_countP _
    (fun orphan : COrphan => decide (orphan.setDependsOn = ∅))
    (vOrphan.map fun orphan =>
      { orphan with setDependsOn := orphan.setDependsOn.erase hash })
  simpa using hsplit.symm

section Template

variable {env : ChainEnv} {args : MinerArgs} {o : MinerOutcome} {s : ChainState} {txdb : CTxDB}
  {pindexPrev : CBlockIndex}

/-! ## The collected transactions -/

variable (env args o s txdb pindexPrev) in
/-- What is known of a transaction when a round adds it to the block. -/
structure CollectedTx (entry : TxPriority) (state : CollectState) where
  mapInputs : MapPrevTx
  nValueIn : ℤ
  nP2SH : ℕ
  mapTestPool : TxIndexTable
  size : state.nBlockSize + entry.nTxSize < args.maxSize
  fetched : fetchInputs env ⟨s.nBestHeight, o.nConnectTime, poolTable env o⟩ o.fetch txdb
    state.mapTestPool false true entry.tx = .ok mapInputs
  valueIn : getValueIn mapInputs entry.tx = some nValueIn
  p2sh : getP2SHSigOpCount env mapInputs entry.tx = some nP2SH
  sigOps : state.nBlockSigOps + (getLegacySigOpCount env entry.tx + nP2SH) < MAX_BLOCK_SIGOPS
  connected : connectInputs env ⟨s.nBestHeight, o.nConnectTime, poolTable env o⟩ mapInputs
    state.mapTestPool ⟨1, 1, 1⟩ pindexPrev (s.pprevs pindexPrev) false true true entry.tx =
      some mapTestPool

variable {entry : TxPriority}

/-- The state when the transaction has been added. -/
def CollectedTx.next {state : CollectState}
    (c : CollectedTx env args o s txdb pindexPrev entry state) (fSortedByFee : Bool) :
    CollectState where
  vOrphan := (releaseOrphans (env.txHash entry.tx) state.vOrphan).1
  vecPriority := state.vecPriority ++ (releaseOrphans (env.txHash entry.tx) state.vOrphan).2
  fSortedByFee := fSortedByFee
  mapTestPool :=
    c.mapTestPool.insert (env.txHash entry.tx) (.ofOutputs ⟨1, 1, 1⟩ entry.tx.vout.length)
  vtx := state.vtx ++ [entry.tx]
  nBlockSize := state.nBlockSize + entry.nTxSize
  nBlockSigOps := state.nBlockSigOps + (getLegacySigOpCount env entry.tx + c.nP2SH)
  nFees := state.nFees + (c.nValueIn - entry.nValueOut)

/-- A round adds the transaction, or it changes nothing but the order of the queue. -/
theorem collectTx_cases {state state' : CollectState}
    (h : collectTx env args o s txdb pindexPrev entry state = some state') :
    ∃ fSortedByFee, state' = { state with fSortedByFee := fSortedByFee } ∨
      ∃ c : CollectedTx env args o s txdb pindexPrev entry state, state' = c.next fSortedByFee := by
  unfold collectTx at h
  dsimp only at h
  split at h
  · cases h
    exact ⟨state.fSortedByFee, Or.inl rfl⟩
  · next hsize =>
    split at h
    · cases h
      exact ⟨state.fSortedByFee, Or.inl rfl⟩
    · split at h
      · cases h
        exact ⟨state.fSortedByFee, Or.inl rfl⟩
      · refine ⟨state.fSortedByFee || state.nBlockSize + entry.nTxSize ≥ args.prioritySize ||
          entry.dPriority < Float.ofInt (COIN * 144 / 250), ?_⟩
        unfold connectCollected at h
        dsimp only at h
        split at h
        · cases h
          exact Or.inl rfl
        · next mapInputs hfetched =>
          obtain ⟨nValueIn, hin, h⟩ := bind_eq_some_iff.mp h
          obtain ⟨nP2SH, hp2sh, h⟩ := bind_eq_some_iff.mp h
          split at h
          · cases h
            exact Or.inl rfl
          · next hsigOps =>
            split at h
            · cases h
              exact Or.inl rfl
            · next mapTestPool hconnected =>
              cases h
              exact Or.inr ⟨⟨mapInputs, nValueIn, nP2SH, mapTestPool, not_le.mp hsize, hfetched,
                hin, hp2sh, not_le.mp hsigOps, hconnected⟩, rfl⟩

structure EntriesAll (P : TxPriority → Prop) (state : CollectState) : Prop where
  orphans : ∀ orphan ∈ state.vOrphan, P orphan.toTxPriority
  queue : ∀ entry ∈ state.vecPriority, P entry

theorem EntriesAll.collectTx {P : TxPriority → Prop}
    {state state' : CollectState} (hall : EntriesAll P state)
    (h : collectTx env args o s txdb pindexPrev entry state = some state') :
    EntriesAll P state' := by
  obtain ⟨fSortedByFee, rfl | ⟨c, rfl⟩⟩ := collectTx_cases h
  · exact ⟨hall.orphans, hall.queue⟩
  · obtain ⟨horphans, hreleased⟩ := @releaseOrphans_all (env.txHash entry.tx) _ P hall.orphans
    exact ⟨horphans, forall_mem_append.mpr ⟨hall.queue, hreleased⟩⟩

structure CollectedAll (P : CTransaction → Prop) (state : CollectState) : Prop where
  orphans : ∀ orphan ∈ state.vOrphan, P orphan.tx
  queue : ∀ entry ∈ state.vecPriority, P entry.tx
  vtx : ∀ tx ∈ state.vtx, P tx

def roundsLeft (state : CollectState) : ℕ := state.vecPriority.length + state.vOrphan.length

variable {P : CTransaction → Prop}

theorem roundsLeft_collectTx {state state' : CollectState}
    (h : collectTx env args o s txdb pindexPrev entry state = some state') :
    roundsLeft state' = roundsLeft state := by
  obtain ⟨fSortedByFee, rfl | ⟨c, rfl⟩⟩ := collectTx_cases h
  · rfl
  · have hlength := releaseOrphans_length (env.txHash entry.tx) state.vOrphan
    unfold roundsLeft CollectedTx.next
    dsimp only
    rw [length_append]
    omega

theorem collectTx_spec {state state' : CollectState} (hentry : P entry.tx)
    (hall : CollectedAll P state)
    (h : collectTx env args o s txdb pindexPrev entry state = some state') :
    CollectedAll P state' ∧ roundsLeft state' = roundsLeft state := by
  have hentries : EntriesAll (fun entry => P entry.tx) state := ⟨hall.orphans, hall.queue⟩
  obtain ⟨horphans, hqueue⟩ := hentries.collectTx h
  refine ⟨⟨horphans, hqueue, ?_⟩, roundsLeft_collectTx h⟩
  obtain ⟨fSortedByFee, rfl | ⟨c, rfl⟩⟩ := collectTx_cases h
  · exact hall.vtx
  · exact forall_mem_append.mpr ⟨hall.vtx, forall_mem_singleton.mpr hentry⟩

/-- The entry that is taken from the queue, and what stays there. -/
theorem EntriesAll.popHeap {P : TxPriority → Prop} {state : CollectState} {first : TxPriority}
    {rest : List TxPriority} (hall : EntriesAll P state)
    (hqueue : state.vecPriority = first :: rest) :
    P (popHeap state.fSortedByFee first rest).1 ∧
      EntriesAll P { state with vecPriority := (popHeap state.fSortedByFee first rest).2 } := by
  have hpopped : ∀ entry ∈ (Program.popHeap state.fSortedByFee first rest).1 ::
      (Program.popHeap state.fSortedByFee first rest).2, P entry := by
    intro entry hentry
    apply hall.queue entry
    rw [hqueue]
    exact (popHeap_perm state.fSortedByFee first rest).mem_iff.mp hentry
  rw [forall_mem_cons] at hpopped
  exact ⟨hpopped.1, hall.orphans, hpopped.2⟩

/-- What every round keeps holds after all of them. -/
theorem collectTxs_invariant {I : CollectState → Prop}
    (hround : ∀ state first rest state', I state → state.vecPriority = first :: rest →
      collectTx env args o s txdb pindexPrev (popHeap state.fSortedByFee first rest).1
        { state with vecPriority := (popHeap state.fSortedByFee first rest).2 } = some state' →
      I state') {n : ℕ} {state state' : CollectState} (hstate : I state)
    (h : collectTxs env args o s txdb pindexPrev n state = some state') : I state' := by
  induction n generalizing state with
  | zero =>
    cases h
    exact hstate
  | succ n ih =>
    rw [collectTxs] at h
    split at h
    · cases h
      exact hstate
    · next first rest hqueue =>
      obtain ⟨mid, hmid, hrest⟩ := bind_eq_some_iff.mp h
      exact ih (hround state first rest mid hstate hqueue hmid) hrest

theorem collectTxs_empties {n : ℕ} {state state' : CollectState}
    (h : collectTxs env args o s txdb pindexPrev n state = some state')
    (hrounds : roundsLeft state ≤ n) : state'.vecPriority = [] := by
  induction n generalizing state with
  | zero =>
    cases h
    unfold roundsLeft at hrounds
    exact length_eq_zero_iff.mp (by omega)
  | succ n ih =>
    rw [collectTxs] at h
    split at h
    · next hempty =>
      cases h
      exact hempty
    · next first rest hqueue =>
      obtain ⟨mid, hmid, hrest⟩ := bind_eq_some_iff.mp h
      apply ih hrest
      have hlength := (popHeap_perm state.fSortedByFee first rest).length_eq
      rw [roundsLeft_collectTx hmid]
      unfold roundsLeft at hrounds ⊢
      rw [hqueue] at hrounds
      simp only [length_cons] at hlength hrounds
      dsimp only
      omega

theorem collectTxs_spec {n : ℕ} {state state' : CollectState} (hall : CollectedAll P state)
    (h : collectTxs env args o s txdb pindexPrev n state = some state') :
    CollectedAll P state' ∧ (roundsLeft state ≤ n → state'.vecPriority = []) := by
  refine ⟨collectTxs_invariant ?_ hall h, collectTxs_empties h⟩
  intro state first rest state' hall hqueue hround
  have hentries : EntriesAll (fun entry => P entry.tx) state := ⟨hall.orphans, hall.queue⟩
  obtain ⟨hfirst, horphans, hrest⟩ := hentries.popHeap hqueue
  exact (collectTx_spec hfirst ⟨horphans, hrest, hall.vtx⟩ hround).1

/-! ## The transactions of the memory pool -/

def FinalWhenSelected (env : ChainEnv) (o : MinerOutcome) (s : ChainState) (tx : CTransaction) :
    Prop :=
  tx.IsFinal s.nBestHeight (o.nSelectTime (env.txHash tx)) 0 0 = true

structure GatheredEntry (env : ChainEnv) (o : MinerOutcome) (s : ChainState) (tx : CTransaction)
    (entry : TxPriority) : Prop where
  tx_eq : entry.tx = tx
  notCoinBase : ¬ tx.IsCoinBase
  final : FinalWhenSelected env o s tx
  size : entry.nTxSize = tx.getSerializeSize
  valueOut : tx.getValueOut = some entry.nValueOut

theorem gatherTx_all {P : TxPriority → Prop} {tx : CTransaction}
    {state state' : List COrphan × List TxPriority}
    (hnew : ∀ entry, GatheredEntry env o s tx entry → P entry)
    (horphans : ∀ orphan ∈ state.1, P orphan.toTxPriority) (hqueue : ∀ entry ∈ state.2, P entry)
    (h : gatherTx env o s txdb state tx = some state') :
    (∀ orphan ∈ state'.1, P orphan.toTxPriority) ∧ ∀ entry ∈ state'.2, P entry := by
  unfold gatherTx at h
  dsimp only at h
  split at h
  · cases h
    exact ⟨horphans, hqueue⟩
  · next hselected =>
    rw [not_or, not_not] at hselected
    split at h
    · cases h
      exact ⟨horphans, hqueue⟩
    · obtain ⟨nValueOut, hout, h⟩ := bind_eq_some_iff.mp h
      have hentry := fun dPriority dFeePerKb => hnew
        ⟨dPriority, dFeePerKb, tx, tx.getSerializeSize, nValueOut⟩
        ⟨rfl, hselected.1, hselected.2, rfl, hout⟩
      split at h
      · cases h
        exact ⟨horphans, forall_mem_append.mpr ⟨hqueue, forall_mem_singleton.mpr (hentry _ _)⟩⟩
      · cases h
        exact ⟨forall_mem_append.mpr ⟨horphans, forall_mem_singleton.mpr (hentry _ _)⟩, hqueue⟩

/-- The entries of all transactions of the pool. -/
theorem gatherTxs_all {P : TxPriority → Prop} {state : List COrphan × List TxPriority}
    (hnew : ∀ tx ∈ o.mapTx, ∀ entry, GatheredEntry env o s tx entry → P entry)
    (h : o.mapTx.foldlM (gatherTx env o s txdb) ([], []) = some state) :
    (∀ orphan ∈ state.1, P orphan.toTxPriority) ∧ ∀ entry ∈ state.2, P entry := by
  have hall := foldlM_invariant
    (P := fun state l => (∀ tx ∈ l, ∀ entry, GatheredEntry env o s tx entry → P entry) ∧
      (∀ orphan ∈ state.1, P orphan.toTxPriority) ∧ ∀ entry ∈ state.2, P entry)
    (fun tx l state state' hstate hstep => ⟨fun tx htx => hstate.1 tx (mem_cons_of_mem _ htx),
      gatherTx_all (hstate.1 tx mem_cons_self) hstate.2.1 hstate.2.2 hstep⟩)
    ⟨hnew, forall_mem_nil _, forall_mem_nil _⟩ h
  exact hall.2

/-- `CreateNewBlock` takes final transactions only, and it looks at the whole queue. -/
theorem collectFromPool_spec {state : CollectState}
    (h : collectFromPool env args o s txdb pindexPrev = some state) :
    CollectedAll (FinalWhenSelected env o s) state ∧ state.vecPriority = [] := by
  obtain ⟨⟨vOrphan, vecPriority⟩, hgather, hcollect⟩ := bind_eq_some_iff.mp h
  have hgathered := gatherTxs_all (P := fun entry => FinalWhenSelected env o s entry.tx)
    (fun tx _ entry hentry => hentry.tx_eq ▸ hentry.final) hgather
  obtain ⟨hall, hempty⟩ := collectTxs_spec ⟨hgathered.1, hgathered.2, nofun⟩ hcollect
  exact ⟨hall, hempty le_rfl⟩

/-! ## Blocks under work -/

/-- The time stamp that `UpdateTime` gives. -/
def minerTime (chain : List CBlockIndex) (nAdjustedTime : ℤ) : ℕ :=
  toUint (max (getMedianTimePast chain + 1) nAdjustedTime)

/-- What a miner keeps of its block, where `nAdjustedTime` is the clock of the last
`UpdateTime`. -/
structure UnderWork (fTestNet : Bool) (hashPrev : uint256) (chain : List CBlockIndex)
    (nAdjustedTime : ℤ) (collected : List CTransaction) (block : CBlock) : Prop where
  version : block.nVersion = CURRENT_VERSION
  parent : block.hashPrevBlock = hashPrev
  time : block.nTime = minerTime chain nAdjustedTime
  work : getNextWorkRequired fTestNet block.nTime chain = some block.nBits
  txs : ∃ coinBase txin, block.vtx = coinBase :: collected ∧ coinBase.vin = [txin] ∧
    coinBase.nLockTime = 0

variable {fTestNet : Bool} {hashPrev : uint256} {chain pprevs : List CBlockIndex}
  {nAdjustedTime : ℤ} {collected : List CTransaction} {block block' : CBlock}

/-- `UpdateTime` keeps the required work: livenet looks at the chain only, and testnet sets it
anew. -/
theorem updateTime_cases (h : updateTime fTestNet nAdjustedTime chain block = some block') :
    block' = { block with
        nTime := minerTime chain nAdjustedTime
        nBits := block'.nBits } ∧
      (getNextWorkRequired fTestNet block.nTime chain = some block.nBits →
        getNextWorkRequired fTestNet block'.nTime chain = some block'.nBits) := by
  cases fTestNet with
  | false =>
    cases h
    exact ⟨rfl, fun hwork => (getNextWorkRequired_livenet _ _ chain).trans hwork⟩
  | true =>
    obtain ⟨nBits, hbits, hblock⟩ := bind_eq_some_iff.mp h
    cases hblock
    exact ⟨rfl, fun _ => hbits⟩

theorem UnderWork.updateTime {nTime : ℤ}
    (hwork : UnderWork fTestNet hashPrev chain nTime collected block)
    (h : updateTime fTestNet nAdjustedTime chain block = some block') :
    UnderWork fTestNet hashPrev chain nAdjustedTime collected block' := by
  obtain ⟨heq, hbits⟩ := updateTime_cases h
  rw [heq] at hbits ⊢
  exact ⟨hwork.version, hwork.parent, rfl, hbits hwork.work, hwork.txs⟩

theorem UnderWork.setCoinBaseScript (scriptSig : CScript)
    (hwork : UnderWork fTestNet hashPrev chain nAdjustedTime collected block) :
    UnderWork fTestNet hashPrev chain nAdjustedTime collected
        (block.setCoinBaseScript scriptSig) ∧
      (block.setCoinBaseScript scriptSig).coinBaseScript = scriptSig := by
  obtain ⟨coinBase, txin, hvtx, hvin, hlock⟩ := hwork.txs
  have hset : (block.setCoinBaseScript scriptSig).vtx =
      { coinBase with vin := [{ txin with scriptSig := scriptSig }] } :: collected := by
    rw [CBlock.setCoinBaseScript, hvtx, modifyHead_cons, hvin, modifyHead_cons]
  refine ⟨⟨hwork.version, hwork.parent, hwork.time, hwork.work, _, _, hset, rfl, hlock⟩, ?_⟩
  rw [CBlock.coinBaseScript, hset]
  rfl

theorem createNewBlock_underWork {t : uint256} (hs : TreeOk s) (hbest : s.pindexBest = some t)
    (hentry : s.entry t = some pindexPrev)
    (h : createNewBlock env args o s txdb = some block) :
    UnderWork env.fTestNet t (pindexPrev :: s.pprevs pindexPrev) o.nAdjustedTime
        block.vtx.tail block ∧
      ∀ tx ∈ block.vtx.tail, FinalWhenSelected env o s tx := by
  obtain ⟨scriptPubKey, -, h⟩ := bind_eq_some_iff.mp h
  obtain ⟨best, hbest', h⟩ := bind_eq_some_iff.mp h
  cases hbest.symm.trans hbest'
  obtain ⟨prev, hprev, h⟩ := bind_eq_some_iff.mp h
  cases hentry.symm.trans hprev
  obtain ⟨state, hstate, h⟩ := bind_eq_some_iff.mp h
  obtain ⟨hash, hhash, h⟩ := bind_eq_some_iff.mp h
  cases (hs.key t pindexPrev hentry).symm.trans hhash
  obtain ⟨timed, htimed, h⟩ := bind_eq_some_iff.mp h
  obtain ⟨nBits, hbits, h⟩ := bind_eq_some_iff.mp h
  obtain ⟨-, -, h⟩ := bind_eq_some_iff.mp h
  obtain ⟨heq, -⟩ := updateTime_cases htimed
  rw [heq] at hbits h
  cases h
  exact ⟨⟨rfl, rfl, rfl, hbits, _, _, rfl, rfl, rfl⟩, (collectFromPool_spec hstate).1.vtx⟩

/-! ## Steps of the miner -/

/-- The clock of the last `UpdateTime`. -/
def lastTime (nAdjustedTime : ℤ) (steps : List MinerStep) : ℤ :=
  steps.foldl (fun nAdjustedTime step =>
    match step with
    | .updateTime nTime => nTime
    | _ => nAdjustedTime) nAdjustedTime

def HeightPushed (pindexPrev : CBlockIndex) (block : CBlock) : Prop :=
  (pushInt64 (pindexPrev.nHeight + 1 : ℕ)).isPrefixOf block.coinBaseScript = true

variable {state state' : MinerState} {step : MinerStep} {steps : List MinerStep}

theorem incrementExtraNonce_spec
    (hwork : UnderWork fTestNet hashPrev chain nAdjustedTime collected state.block)
    (h : incrementExtraNonce env pindexPrev state = some state') :
    UnderWork fTestNet hashPrev chain nAdjustedTime collected state'.block ∧
      HeightPushed pindexPrev state'.block := by
  obtain ⟨-, -, h⟩ := bind_eq_some_iff.mp h
  cases h
  obtain ⟨⟨hversion, hparent, htime, hbits, htxs⟩, hscript⟩ := hwork.setCoinBaseScript
    (pushUint64 (pindexPrev.nHeight + 1) ++ pushData (getvch (((if state.hashPrevBlock ≠
      state.block.hashPrevBlock then 0 else state.nExtraNonce) + 1) % 2 ^ 32)) ++ COINBASE_FLAGS)
  refine ⟨⟨hversion, hparent, htime, hbits, htxs⟩, ?_⟩
  show (pushInt64 (pindexPrev.nHeight + 1 : ℕ)).isPrefixOf
    (state.block.setCoinBaseScript _).coinBaseScript = true
  rw [hscript, ← pushUint64_eq, append_assoc, isPrefixOf_iff_prefix]
  exact prefix_append _ _

section

variable (hwork : UnderWork env.fTestNet hashPrev (pindexPrev :: pprevs) nAdjustedTime
  collected state.block)
include hwork

theorem minerStep_spec (h : step.run env pindexPrev pprevs state = some state') :
    UnderWork env.fTestNet hashPrev (pindexPrev :: pprevs) (lastTime nAdjustedTime [step])
        collected state'.block ∧
      (HeightPushed pindexPrev state.block ∨ step = .incrementExtraNonce →
        HeightPushed pindexPrev state'.block) := by
  cases step with
  | incrementExtraNonce =>
    obtain ⟨hwork', hheight⟩ := incrementExtraNonce_spec hwork h
    exact ⟨hwork', fun _ => hheight⟩
  | updateTime nTime =>
    obtain ⟨updated, hupdated, hstate⟩ := map_eq_some_iff.mp h
    cases hstate
    refine ⟨hwork.updateTime hupdated, ?_⟩
    rintro (hheight | hstep)
    · obtain ⟨heq, -⟩ := updateTime_cases hupdated
      rw [heq]
      exact hheight
    · cases hstep
  | setNonce nNonce =>
    cases h
    refine ⟨⟨hwork.version, hwork.parent, hwork.time, hwork.work, hwork.txs⟩, ?_⟩
    rintro (hheight | hstep)
    · exact hheight
    · cases hstep

theorem minerSteps_spec
    (h : steps.foldlM (MinerStep.run env pindexPrev pprevs) state = some state') :
    UnderWork env.fTestNet hashPrev (pindexPrev :: pprevs) (lastTime nAdjustedTime steps)
        collected state'.block ∧
      (HeightPushed pindexPrev state.block ∨ .incrementExtraNonce ∈ steps →
        HeightPushed pindexPrev state'.block) := by
  induction steps generalizing state nAdjustedTime with
  | nil =>
    cases h
    refine ⟨hwork, ?_⟩
    rintro (hheight | hmem)
    · exact hheight
    · cases hmem
  | cons step steps ih =>
    obtain ⟨mid, hmid, hrest⟩ := foldlM_cons_eq_some.mp h
    obtain ⟨hworkMid, hheightMid⟩ := minerStep_spec hwork hmid
    obtain ⟨hwork', hheight'⟩ := ih hworkMid hrest
    refine ⟨hwork', ?_⟩
    rintro (hheight | hmem)
    · exact hheight' (Or.inl (hheightMid (Or.inl hheight)))
    · rcases mem_cons.mp hmem with hstep | hmem
      · exact hheight' (Or.inl (hheightMid (Or.inr hstep.symm)))
      · exact hheight' (Or.inr hmem)

end

/-! ## The checks -/

theorem firstError_eq_none_iff {checks : List (Bool × BlockError)} :
    firstError checks = none ↔ ∀ check ∈ checks, check.1 = false := by
  rw [firstError, map_eq_none_iff, find?_eq_none]
  simp

theorem toUint_le {n : ℤ} (hn : 0 ≤ n) : (toUint n : ℤ) ≤ n := by
  unfold toUint
  omega

theorem getMedianTimePast_nonneg (chain : List CBlockIndex) : 0 ≤ getMedianTimePast chain :=
  Int.natCast_nonneg _

variable {ctx : AcceptContext}

theorem basicChecks_iff
    (hwork : UnderWork ctx.fTestNet hashPrev (pindexPrev :: pprevs) nAdjustedTime collected block)
    (hheight : HeightPushed pindexPrev block) :
    (∀ check ∈ basicChecks ctx pindexPrev pprevs block, check.1 = false) ↔
      toUint (getMedianTimePast (pindexPrev :: pprevs)) < block.nTime := by
  have hversion : block.nVersion = 2 := hwork.version
  have hpushed : (pushInt64 (pindexPrev.nHeight + 1)).isPrefixOf block.coinBaseScript = true := by
    exact hheight
  simp [basicChecks, isPrefixOf_iff_prefix.mp hpushed, hversion, hwork.work]

/-- A time stamp that goes one second past the median is in reach of the block limiter, so the
clock must be ahead of it. -/
theorem softForkOneChecks_iff
    (htime : block.nTime = minerTime (pindexPrev :: pprevs) ctx.nAdjustedTime) :
    (∀ check ∈ softForkOneChecks ctx pindexPrev pprevs block, check.1 = false) ↔
      getMedianTimePast (pindexPrev :: pprevs) < ctx.nAdjustedTime ∧
        block.nTime = toUint ctx.nAdjustedTime ∧
        getMedianTimePast (pindexPrev :: pprevs) + BLOCK_LIMITER_TIME < block.nTime ∧
        (pindexPrev.nTime : ℤ) - 10 * 60 < block.nTime ∧ block.nTime + 10 * 60 < 2 ^ 32 := by
  have hnonneg := getMedianTimePast_nonneg (pindexPrev :: pprevs)
  have hlimiter : BLOCK_LIMITER_TIME = 120 := rfl
  simp only [softForkOneChecks, forall_mem_cons, not_mem_nil, false_imp_iff,
    implies_true, and_true, decide_eq_false_iff_not, not_lt, not_le, gt_iff_lt]
  unfold minerTime at htime
  rcases le_or_gt ctx.nAdjustedTime (getMedianTimePast (pindexPrev :: pprevs)) with hle | hgt
  · rw [max_eq_left (by omega)] at htime
    have hstamp := @toUint_le (getMedianTimePast (pindexPrev :: pprevs) + 1) (by omega)
    omega
  · rw [max_eq_right (by omega)] at htime
    omega

theorem softForkTwoChecks_of_time (htime : block.nTime = toUint ctx.nAdjustedTime)
    (hrange : block.nTime + 10 * 60 < 2 ^ 32) :
    ∀ check ∈ softForkTwoChecks ctx pindexPrev pprevs block, check.1 = false := by
  simp only [softForkTwoChecks, forall_mem_cons, not_mem_nil, false_imp_iff,
    implies_true, and_true, Bool.and_eq_false_iff, decide_eq_false_iff_not]
  omega

/-! ## Finality -/

/-- The lock time of the transaction was over when the miner looked at it, and is not over at
`nBlockTime`. -/
def LockedAgain (nSelectTime nBlockTime : ℤ) (tx : CTransaction) : Prop :=
  LOCKTIME_THRESHOLD ≤ tx.nLockTime ∧ nBlockTime ≤ tx.nLockTime ∧ tx.nLockTime < nSelectTime ∧
    tx.vin.all CTxIn.IsFinal = false

/-- A transaction that was final for the best height is final for the next one, unless its lock
time is not over again. -/
theorem isFinal_iff {nBestHeight nSelectTime nBestHeight' nBlockHeight nBlockTime : ℤ}
    {tx : CTransaction} (hselected : tx.IsFinal nBestHeight nSelectTime 0 0 = true)
    (hheight : nBestHeight ≤ nBlockHeight) (hpos : nBlockHeight ≠ 0) (htime : nBlockTime ≠ 0) :
    tx.IsFinal nBestHeight' nAdjustedTime nBlockHeight nBlockTime = true ↔
      ¬ LockedAgain nSelectTime nBlockTime tx := by
  unfold CTransaction.IsFinal at hselected ⊢
  rw [LockedAgain, if_neg htime, if_neg hpos]
  rw [if_pos rfl] at hselected
  cases hall : tx.vin.all CTxIn.IsFinal with
  | true => simp
  | false =>
    rw [hall] at hselected
    by_cases hzero : tx.nLockTime = 0
    · simp [hzero, LOCKTIME_THRESHOLD]
    · rw [if_neg hzero] at hselected ⊢
      dsimp only at hselected ⊢
      by_cases hthreshold : tx.nLockTime < LOCKTIME_THRESHOLD
      · rw [if_pos hthreshold] at hselected ⊢
        have hbefore : (tx.nLockTime : ℤ) < nBestHeight := by simpa using hselected
        rw [if_pos (by omega)]
        simp [hthreshold]
      · rw [if_neg hthreshold] at hselected ⊢
        have hbefore : (tx.nLockTime : ℤ) < nSelectTime := by simpa using hselected
        simp [hbefore, not_lt.mp hthreshold]

/-! ## What AcceptBlock says -/

/-- `AcceptBlock` finds the parent and gets through its checks up to the finality of the
transactions. -/
def PassesChecks (ctx : AcceptContext) (s : ChainState) (block : CBlock) : Prop :=
  ∃ pindexPrev, s.entry block.hashPrevBlock = some pindexPrev ∧
    firstError (contextChecks ctx pindexPrev (s.pprevs pindexPrev) block) = none

/-- The time stamp that a miner makes at `nAdjustedTime` follows the rules. -/
def TimeStampOk (fTestNet : Bool) (pindexPrev : CBlockIndex) (pprevs : List CBlockIndex)
    (nAdjustedTime : ℤ) : Prop :=
  if isForked fTestNet nSoftForkOne nTestnetSoftForkOne (pindexPrev.nHeight + 1) then
    getMedianTimePast (pindexPrev :: pprevs) < nAdjustedTime ∧
      getMedianTimePast (pindexPrev :: pprevs) + BLOCK_LIMITER_TIME < toUint nAdjustedTime ∧
      (pindexPrev.nTime : ℤ) - 10 * 60 < toUint nAdjustedTime ∧
      toUint nAdjustedTime + 10 * 60 < 2 ^ 32
  else
    toUint (getMedianTimePast (pindexPrev :: pprevs)) <
      minerTime (pindexPrev :: pprevs) nAdjustedTime

theorem TimeStampOk.minerTime_pos (h : TimeStampOk fTestNet pindexPrev pprevs nAdjustedTime) :
    0 < minerTime (pindexPrev :: pprevs) nAdjustedTime := by
  have hnonneg := getMedianTimePast_nonneg (pindexPrev :: pprevs)
  have hlimiter : BLOCK_LIMITER_TIME = 120 := rfl
  unfold TimeStampOk at h
  split at h
  · rw [minerTime, max_eq_right (by omega)]
    omega
  · omega

theorem softFork_le {nHeight : ℕ}
    (h : isForked fTestNet nSoftForkTwo nTestnetSoftForkTwo nHeight = true) :
    isForked fTestNet nSoftForkOne nTestnetSoftForkOne nHeight = true := by
  unfold isForked nSoftForkTwo nTestnetSoftForkTwo at h
  unfold isForked nSoftForkOne nTestnetSoftForkOne
  cases fTestNet <;> simp at h ⊢ <;> omega

theorem contextChecks_iff
    (hwork : UnderWork ctx.fTestNet hashPrev (pindexPrev :: pprevs) ctx.nAdjustedTime collected
      block)
    (hheight : HeightPushed pindexPrev block) :
    firstError (contextChecks ctx pindexPrev pprevs block) = none ↔
      TimeStampOk ctx.fTestNet pindexPrev pprevs ctx.nAdjustedTime ∧
        ∀ tx ∈ block.vtx, tx.IsFinal ctx.nBestHeight ctx.nAdjustedTime
          (pindexPrev.nHeight + 1 : ℕ) block.nTime = true := by
  have hbasic := basicChecks_iff hwork hheight
  have hone := @softForkOneChecks_iff pindexPrev pprevs block ctx hwork.time
  have htwo := @softForkTwoChecks_of_time pindexPrev pprevs block ctx
  have hmedian := toUint_le (getMedianTimePast_nonneg (pindexPrev :: pprevs))
  have hlimiter : BLOCK_LIMITER_TIME = 120 := rfl
  rw [firstError_eq_none_iff]
  unfold contextChecks
  rw [forall_mem_append, forall_mem_append, forall_mem_append, List.forall_mem_map, hbasic]
  apply and_congr
  · unfold TimeStampOk
    by_cases hfork :
        isForked ctx.fTestNet nSoftForkOne nTestnetSoftForkOne (pindexPrev.nHeight + 1) = true
    · rw [if_pos hfork, if_pos hfork, hone]
      constructor
      · rintro ⟨⟨-, hclock, htime, hstamp, hpast, hrange⟩, -⟩
        rw [htime] at hstamp hpast hrange
        exact ⟨hclock, hstamp, hpast, hrange⟩
      · rintro ⟨hclock, hstamp, hpast, hrange⟩
        have htime : block.nTime = toUint ctx.nAdjustedTime := by
          rw [hwork.time, minerTime, max_eq_right (by omega)]
        rw [htime]
        refine ⟨⟨by omega, hclock, rfl, hstamp, hpast, hrange⟩, ?_⟩
        split
        · exact htwo htime (htime ▸ hrange)
        · exact forall_mem_nil _
    · rw [if_neg hfork, if_neg hfork, if_neg fun h => hfork (softFork_le h.2), hwork.time]
      simp
  · simp

theorem minedBlock_passes_iff {t : uint256} {template : CBlock} {nExtraNonce : ℕ}
    {hashStatic : uint256} {fInitialBlockDownload : Bool} (hs : TreeOk s)
    (hbest : s.pindexBest = some t) (hentry : s.entry t = some pindexPrev)
    (hheight : s.nBestHeight = pindexPrev.nHeight)
    (hcreate : createNewBlock env args o s txdb = some template)
    (hrun : steps.foldlM (MinerStep.run env pindexPrev (s.pprevs pindexPrev))
      ⟨template, nExtraNonce, hashStatic⟩ = some state)
    (hextra : .incrementExtraNonce ∈ steps) :
    PassesChecks
        ⟨env.fTestNet, s.nBestHeight, lastTime o.nAdjustedTime steps, fInitialBlockDownload⟩ s
        state.block ↔
      TimeStampOk env.fTestNet pindexPrev (s.pprevs pindexPrev)
          (lastTime o.nAdjustedTime steps) ∧
        ∀ tx ∈ template.vtx.tail, ¬ LockedAgain (o.nSelectTime (env.txHash tx))
          (minerTime (pindexPrev :: s.pprevs pindexPrev) (lastTime o.nAdjustedTime steps)) tx := by
  obtain ⟨htemplate, hfinal⟩ := createNewBlock_underWork hs hbest hentry hcreate
  obtain ⟨hwork, hpushed⟩ := minerSteps_spec htemplate hrun
  have hchecks := @contextChecks_iff pindexPrev t (s.pprevs pindexPrev) template.vtx.tail
    state.block
    ⟨env.fTestNet, s.nBestHeight, lastTime o.nAdjustedTime steps, fInitialBlockDownload⟩ hwork
    (hpushed (Or.inr hextra))
  have hpasses : PassesChecks
      ⟨env.fTestNet, s.nBestHeight, lastTime o.nAdjustedTime steps, fInitialBlockDownload⟩ s
      state.block ↔ firstError (contextChecks ⟨env.fTestNet, s.nBestHeight,
        lastTime o.nAdjustedTime steps, fInitialBlockDownload⟩ pindexPrev (s.pprevs pindexPrev)
        state.block) = none := by
    rw [PassesChecks, hwork.parent, hentry]
    simp
  rw [hpasses, hchecks]
  refine and_congr_right fun htime => ?_
  obtain ⟨coinBase, txin, hvtx, -, hlock⟩ := hwork.txs
  have hcoinBase : coinBase.IsFinal s.nBestHeight (lastTime o.nAdjustedTime steps)
      (pindexPrev.nHeight + 1 : ℕ) state.block.nTime = true := by
    rw [CTransaction.IsFinal, if_pos hlock]
  have hstamp : state.block.nTime = minerTime (pindexPrev :: s.pprevs pindexPrev)
      (lastTime o.nAdjustedTime steps) := hwork.time
  have hpos : (state.block.nTime : ℤ) ≠ 0 := by
    rw [hstamp]
    exact_mod_cast htime.minerTime_pos.ne'
  rw [hvtx, forall_mem_cons, and_iff_right hcoinBase]
  refine forall₂_congr fun tx htx => ?_
  rw [← hstamp]
  exact isFinal_iff (hfinal tx htx) (by omega) (by omega) hpos

end Template

/-! ## A block that the limiter rejects -/

namespace SampleMining

/-- The block at height `i` of a testnet chain that grows by a block every ten seconds. -/
def entry (i : ℕ) : CBlockIndex :=
  ⟨some (i + 1), if i = 0 then none else some i, none, 1, i, i, i + 1, 2, 0,
    1404777601 + 10 * i, 0x1e0fffff, i⟩

def entries : List (Σ _ : uint256, CBlockIndex) :=
  (range 3401).reverse.map fun i => ⟨i + 1, entry i⟩

theorem entries_nodup : entries.NodupKeys := by
  rw [entries, List.NodupKeys, List.keys, List.map_map]
  refine List.Nodup.map (fun a b hab => ?_) (nodup_reverse.mpr nodup_range)
  exact Nat.succ_injective hab

def chain : ChainState :=
  { ChainState.initial with
    mapBlockIndex := AList.toFinmap ⟨entries, entries_nodup⟩
    pindexGenesisBlock := some 1
    hashBestChain := 3401
    pindexBest := some 3401
    nBestHeight := 3400
    bnBestChainWork := 3401 }

def env : ChainEnv where
  fTestNet := true
  nBaseMaturity := 0
  totalBlocksEstimate := 0
  txHash tx := tx.nLockTime + 1
  blockHash header := header.nNonce + 1
  checkProofOfWork _ := true
  buildMerkleTree _ := 0
  getSigOpCount _ _ := 0
  getP2SHSigOpCount _ _ := 0
  isPayToScriptHash _ := false
  verifyScript _ _ _ _ _ _ := true
  blockFileTx _ _ := none
  blockFileBlock _ _ := none

/-- A minute after the last block, and fifty seconds more after the median. -/
def outcome : MinerOutcome where
  miningKey := [2]
  nAdjustedTime := 1404811661
  nConnectTime := 1404811661

def txdb : CTxDB := ⟨⟨∅, ∅, some 3401, none⟩, none⟩

def template : CBlock :=
  ⟨⟨2, 3401, 0, 1404811661, 0x1e0fffff, 0⟩,
    [{ vin := [⟨⟨0, uintMax⟩, [OP_0, OP_0], uintMax⟩]
       vout := [⟨50 * COIN, [1, 2, OP_CHECKSIG]⟩] }]⟩

def mined : MinerState :=
  ⟨template.setCoinBaseScript (pushInt64 3401 ++ pushData [1] ++ COINBASE_FLAGS), 1, 3401⟩

theorem entry_chain {h : uint256} {e : CBlockIndex} :
    chain.entry h = some e ↔ ∃ i : ℕ, i < 3401 ∧ i + 1 = h ∧ entry i = e := by
  have hmem := @AList.mem_lookup_iff _ _ _ h e ⟨entries, entries_nodup⟩
  show (AList.toFinmap ⟨entries, entries_nodup⟩).lookup h = some e ↔ _
  rw [Finmap.lookup_toFinmap, ← mem_def, hmem]
  unfold entries
  simp [Sigma.ext_iff]

theorem treeOk : TreeOk chain := by
  constructor
  · intro h e he
    obtain ⟨i, -, rfl, rfl⟩ := entry_chain.mp he
    rfl
  · intro h e p he hp
    obtain ⟨i, hi, rfl, rfl⟩ := entry_chain.mp he
    cases i with
    | zero => cases hp
    | succ i =>
      cases hp
      exact ⟨entry i, entry_chain.mpr ⟨i, by omega, rfl, rfl⟩, rfl⟩
  · intro h e he hp
    obtain ⟨i, -, rfl, rfl⟩ := entry_chain.mp he
    cases i with
    | zero => rfl
    | succ i => cases hp

theorem best : chain.pindexBest = some 3401 := rfl

theorem entry_best : chain.entry 3401 = some (entry 3400) :=
  entry_chain.mpr ⟨3400, by decide, by decide, rfl⟩

theorem bestHeight : chain.nBestHeight = (entry 3400).nHeight := by decide

theorem created : createNewBlock env {} outcome chain txdb = some template := by decide +kernel

theorem worked : [MinerStep.incrementExtraNonce].foldlM
    (MinerStep.run env (entry 3400) (chain.pprevs (entry 3400))) ⟨template, 0, 0⟩ = some mined := by
  decide

end SampleMining

open SampleMining

theorem minedBlock_passes_iff_sampleMining : PassesChecks
        ⟨env.fTestNet, chain.nBestHeight,
          lastTime outcome.nAdjustedTime [.incrementExtraNonce], false⟩
        chain mined.block ↔
      TimeStampOk env.fTestNet (entry 3400)
          (chain.pprevs (entry 3400))
          (lastTime outcome.nAdjustedTime [.incrementExtraNonce]) ∧
        ∀ tx ∈ template.vtx.tail, ¬ LockedAgain
          (outcome.nSelectTime (env.txHash tx))
          (minerTime (entry 3400 ::
            chain.pprevs (entry 3400))
            (lastTime outcome.nAdjustedTime [.incrementExtraNonce])) tx :=
  minedBlock_passes_iff treeOk best entry_best
    bestHeight created worked (mem_singleton_self _)

/-- The block limiter rejects the block that the node itself has made. -/
theorem minedBlock_limited :
    TreeOk chain ∧
      createNewBlock env {} outcome chain
          txdb = some template ∧
      [MinerStep.incrementExtraNonce].foldlM
        (MinerStep.run env (entry 3400)
          (chain.pprevs (entry 3400)))
        ⟨template, 0, 0⟩ = some mined ∧
      chain.entry mined.block.hashPrevBlock =
        some (entry 3400) ∧
      firstError (contextChecks ⟨true, 3400, 1404811661, false⟩ (entry 3400)
          (chain.pprevs (entry 3400)) mined.block) =
        some ⟨5, "AcceptBlock() : rejected by the block limiter"⟩ ∧
      ¬ PassesChecks ⟨true, 3400, 1404811661, false⟩ chain
        mined.block := by
  have hentry : chain.entry mined.block.hashPrevBlock =
      some (entry 3400) := by
    exact entry_best
  have herror : firstError (contextChecks ⟨true, 3400, 1404811661, false⟩
      (entry 3400) (chain.pprevs (entry 3400))
      SampleMining.mined.block) = some ⟨5, "AcceptBlock() : rejected by the block limiter"⟩ := by
    decide +kernel
  refine ⟨treeOk, created, worked, hentry, herror, ?_⟩
  rintro ⟨pindexPrev, hprev, hnone⟩
  cases hentry.symm.trans hprev
  cases herror.symm.trans hnone

end Phoenixcoin.Analysis
