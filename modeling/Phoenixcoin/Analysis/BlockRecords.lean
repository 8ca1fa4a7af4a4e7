import Phoenixcoin.Program.ConnectBlock

/-!
# What block connection writes besides the transaction index

Connecting or disconnecting a block writes one block-index record, that of the entry before
the block, and leaves the best chain of the database alone.
-/

set_option autoImplicit false

namespace Phoenixcoin.Analysis

open Lib Program Option

variable {env : ChainEnv} {ctx : NodeContext} {outcome : DbOutcome}

theorem update_update (f g : ChainRecords → ChainRecords) (txdb : CTxDB) :
    (txdb.update f).update g = txdb.update fun r => g (f r) := by
  obtain ⟨stored, activeTxn⟩ := txdb
  cases activeTxn <;> rfl

/-- The block-index records change by `write` and the best chain does not change. -/
def WritesIndex (write : Table uint256 CDiskBlockIndex → Table uint256 CDiskBlockIndex)
    (txdb txdb' : CTxDB) : Prop :=
  ∃ f : ChainRecords → ChainRecords,
    (∀ r, (f r).blockindex = write r.blockindex ∧ (f r).hashBestChain = r.hashBestChain) ∧
      txdb' = txdb.update f

namespace WritesIndex

variable {write write' : Table uint256 CDiskBlockIndex → Table uint256 CDiskBlockIndex}
  {txdb txdb' txdb'' : CTxDB}

theorem of_update {f : ChainRecords → ChainRecords} (txdb : CTxDB)
    (hf : ∀ r, (f r).blockindex = write r.blockindex ∧ (f r).hashBestChain = r.hashBestChain) :
    WritesIndex write txdb (txdb.update f) := ⟨f, hf, rfl⟩

theorem refl (txdb : CTxDB) : WritesIndex id txdb txdb := by
  refine ⟨id, fun _ => ⟨rfl, rfl⟩, ?_⟩
  obtain ⟨stored, activeTxn⟩ := txdb
  cases activeTxn <;> rfl

section

variable (h : WritesIndex write txdb txdb')
include h

theorem trans (h' : WritesIndex write' txdb' txdb'') :
    WritesIndex (write' ∘ write) txdb txdb'' := by
  obtain ⟨f, hf, rfl⟩ := h
  obtain ⟨g, hg, rfl⟩ := h'
  refine ⟨fun r => g (f r), fun r => ⟨?_, ?_⟩, update_update f g txdb⟩
  · rw [(hg _).1, (hf r).1]
    rfl
  · rw [(hg _).2, (hf r).2]

theorem view :
    txdb'.view.blockindex = write txdb.view.blockindex ∧
      txdb'.view.hashBestChain = txdb.view.hashBestChain := by
  obtain ⟨f, hf, rfl⟩ := h
  rw [CTxDB.view_update]
  exact hf _

theorem active {r : ChainRecords} (hr : txdb.activeTxn = some r) :
    txdb'.stored = txdb.stored ∧ ∃ r', txdb'.activeTxn = some r' := by
  obtain ⟨f, -, rfl⟩ := h
  rw [CTxDB.update, hr]
  exact ⟨rfl, _, rfl⟩

end

theorem foldlM {A : Type} {step : CTxDB → A → Option CTxDB} {l : List A}
    (hstep : ∀ txdb a txdb', step txdb a = some txdb' → WritesIndex id txdb txdb')
    (h : l.foldlM step txdb = some txdb') : WritesIndex id txdb txdb' := by
  have hrun := @foldlM_invariant _ _ step (fun txdb' _ => WritesIndex id txdb txdb')
    fun a _ s s' hs ha => hs.trans (hstep s a s' ha)
  exact hrun (.refl txdb) h

end WritesIndex

/-- The change that `writePrevBlockIndex` makes. -/
def linkRecord (env : ChainEnv) (pprevs : List CBlockIndex) (hashNext : uint256)
    (blockindex : Table uint256 CDiskBlockIndex) : Table uint256 CDiskBlockIndex :=
  match pprevs with
  | [] => blockindex
  | pprev :: _ =>
    let diskindex := { CDiskBlockIndex.ofBlockIndex pprev with hashNext := hashNext }
    blockindex.insert (env.blockHash diskindex.header) diskindex

variable {txdb txdb' : CTxDB} {pprevs : List CBlockIndex}

variable {hash : uint256} {ok : Bool} {block : CBlock} {tx : CTransaction}

theorem updateTxIndex_writes {txindex : CTxIndex}
    (h : txdb.updateTxIndex ok hash txindex = some txdb') :
    WritesIndex id txdb txdb' := by
  unfold CTxDB.updateTxIndex at h
  split at h
  · cases h
    exact .of_update _ fun _ => ⟨rfl, rfl⟩
  · cases h

theorem eraseTxIndex_writes (txdb : CTxDB) :
    WritesIndex id txdb ((txdb.eraseTxIndex ok hash).getD txdb) := by
  unfold CTxDB.eraseTxIndex
  split
  · exact .of_update _ fun _ => ⟨rfl, rfl⟩
  · exact .refl txdb

theorem writePrevBlockIndex_writes {hashNext : uint256}
    (h : writePrevBlockIndex env outcome pprevs hashNext txdb = some txdb') :
    WritesIndex (linkRecord env pprevs hashNext) txdb txdb' := by
  unfold writePrevBlockIndex at h
  split at h
  · cases h
    exact .refl txdb
  · unfold CTxDB.writeBlockIndex at h
    split at h
    · cases h
      exact .of_update _ fun _ => ⟨rfl, rfl⟩
    · cases h

/-- `ConnectBlock` links the entry before the block to the block. -/
theorem connectBlock_writes {pindex : CBlockIndex}
    (h : connectBlock env ctx outcome txdb pindex pprevs false block = some txdb') :
    WritesIndex (linkRecord env pprevs (pindex.phashBlock.getD 0)) txdb txdb' := by
  simp only [connectBlock, bind_eq_bind, bind_eq_some_iff, exists_guard_eq_some,
    Bool.not_false, Bool.false_eq_true, if_false, not_lt] at h
  obtain ⟨-, state, -, coinBase, -, nValueOut, -, -, txdb1, hwrite, hprev⟩ := h
  simp only [writeQueuedChanges, bind_eq_bind, guard_bind_eq_some, Option.pure_def,
    Option.some.injEq] at hwrite
  obtain ⟨-, rfl⟩ := hwrite
  have hqueued : WritesIndex id txdb
      (txdb.update fun r => { r with tx := state.mapQueuedChanges ∪ r.tx }) :=
    .of_update _ fun _ => ⟨rfl, rfl⟩
  exact hqueued.trans (writePrevBlockIndex_writes hprev)

theorem disconnectInput_writes {txin : CTxIn}
    (h : disconnectInput env outcome tx txdb txin = some txdb') : WritesIndex id txdb txdb' := by
  simp only [disconnectInput, bind_eq_bind, bind_eq_some_iff, exists_guard_eq_some] at h
  obtain ⟨txindex, -, -, hupdate⟩ := h
  exact updateTxIndex_writes hupdate

theorem disconnectInputs_writes (h : disconnectInputs env outcome txdb tx = some txdb') :
    WritesIndex id txdb txdb' := by
  unfold disconnectInputs at h
  split at h
  · cases h
    exact eraseTxIndex_writes txdb
  · simp only [bind_eq_bind, bind_eq_some_iff, Option.pure_def, Option.some.injEq] at h
    obtain ⟨txdb1, hinputs, rfl⟩ := h
    have hwrites := WritesIndex.foldlM (fun _ _ _ => disconnectInput_writes) hinputs
    exact hwrites.trans (eraseTxIndex_writes txdb1)

theorem disconnectBlock_writes (h : disconnectBlock env outcome txdb pprevs block = some txdb') :
    WritesIndex (linkRecord env pprevs 0) txdb txdb' := by
  simp only [disconnectBlock, bind_eq_bind, bind_eq_some_iff] at h
  obtain ⟨txdb1, hinputs, hprev⟩ := h
  have hwrites := WritesIndex.foldlM (fun _ _ _ => disconnectInputs_writes) hinputs
  exact hwrites.trans (writePrevBlockIndex_writes hprev)

end Phoenixcoin.Analysis
