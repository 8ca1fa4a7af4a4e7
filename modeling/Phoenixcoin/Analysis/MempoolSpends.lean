import Phoenixcoin.Program.Mempool

/-!
# The pool knows what its transactions spend

`mapNextTx` has one entry for each input of each transaction of the pool and no others, after any
calls of `accept`, `remove` and `clear`. So no two transactions of the pool spend the same output.
-/

set_option autoImplicit false

namespace Phoenixcoin.Analysis

open Program Lib CTxMemPool List

/-- A call that changes the pool. -/
inductive MempoolOp where
  | accept (A : PoolContext) (txdb : CTxDB) (tx : CTransaction) (fCheckInputs : Bool)
  | remove (tx : CTransaction)
  | clear

/-- The transaction that a call is given. -/
def MempoolOp.tx? : MempoolOp → Option CTransaction
  | .accept _ _ tx _ => some tx
  | .remove tx => some tx
  | .clear => none

def MempoolOp.apply (env : ChainEnv) (pool : CTxMemPool) : MempoolOp → CTxMemPool
  | .accept A txdb tx fCheckInputs => (pool.accept env A txdb tx fCheckInputs).2
  | .remove tx => pool.remove env.txHash tx
  | .clear => pool.clear

/-- `mapNextTx` names for each output the transaction and the input that spend it. -/
def SpendsListed (pool : CTxMemPool) : Prop :=
  ∀ outpoint inpoint, pool.mapNextTx.lookup outpoint = some inpoint ↔
    ∃ tx txin, pool.mapTx.lookup inpoint.ptx = some tx ∧ tx.vin[inpoint.n]? = some txin ∧
      txin.prevout = outpoint

structure PoolConsistent (env : ChainEnv) (known : CTransaction → Prop) (pool : CTxMemPool) :
    Prop where
  spends : SpendsListed pool
  hashed : ∀ hash tx, pool.mapTx.lookup hash = some tx → env.txHash tx = hash
  seen : ∀ hash tx, pool.mapTx.lookup hash = some tx → known tx

theorem poolConsistent_empty (env : ChainEnv) (known : CTransaction → Prop) :
    PoolConsistent env known empty := by
  have hnone (hash : uint256) : empty.mapTx.lookup hash = none := Finmap.lookup_empty hash
  refine ⟨?_, ?_, ?_⟩
  · intro outpoint inpoint
    have hnext : empty.mapNextTx.lookup outpoint = none := Finmap.lookup_empty outpoint
    rw [hnext, hnone]
    simp
  · intro hash tx h
    cases h
  · intro hash tx h
    cases h

/-! ## The loops over the inputs -/

/-- The entries that `addUnchecked` makes, for inputs that spend different outputs. -/
theorem lookup_insertInputs {hash : uint256} {inputs : List (CTxIn × ℕ)}
    (hnodup : (inputs.map fun input => input.1.prevout).Nodup)
    (mapNextTx : Table COutPoint CInPoint) (outpoint : COutPoint) (inpoint : CInPoint) :
    (inputs.foldl (fun mapNextTx (txin, i) => mapNextTx.insert txin.prevout ⟨hash, i⟩)
        mapNextTx).lookup outpoint = some inpoint ↔
      (∃ input ∈ inputs, input.1.prevout = outpoint ∧ inpoint = ⟨hash, input.2⟩) ∨
        (∀ input ∈ inputs, input.1.prevout ≠ outpoint) ∧
          mapNextTx.lookup outpoint = some inpoint := by
  induction inputs generalizing mapNextTx with
  | nil => simp
  | cons input inputs ih =>
    rw [map_cons, nodup_cons] at hnodup
    rw [foldl_cons, ih hnodup.2, Table.lookup_insert_ite]
    have hfresh : ∀ other ∈ inputs, other.1.prevout ≠ input.1.prevout := by
      intro other hmem heq
      exact hnodup.1 (heq ▸ List.mem_map_of_mem hmem)
    constructor
    · intro h
      rcases h with ⟨other, hmem, hspends⟩ | ⟨hnone, hlookup⟩
      · exact Or.inl ⟨other, mem_cons_of_mem _ hmem, hspends⟩
      · by_cases heq : outpoint = input.1.prevout
        · rw [if_pos heq] at hlookup
          exact Or.inl ⟨input, mem_cons_self, heq.symm, (Option.some.inj hlookup).symm⟩
        · rw [if_neg heq] at hlookup
          refine Or.inr ⟨?_, hlookup⟩
          intro other hmem
          rcases mem_cons.mp hmem with rfl | hmem
          · exact Ne.symm heq
          · exact hnone other hmem
    · intro h
      rcases h with ⟨other, hmem, hspends, hinpoint⟩ | ⟨hnone, hlookup⟩
      · rcases mem_cons.mp hmem with rfl | hmem
        · refine Or.inr ⟨?_, ?_⟩
          · intro input' hmem'
            rw [← hspends]
            exact hfresh input' hmem'
          · rw [if_pos hspends.symm, hinpoint]
        · exact Or.inl ⟨other, hmem, hspends, hinpoint⟩
      · refine Or.inr ⟨fun other hmem => hnone other (mem_cons_of_mem _ hmem), ?_⟩
        rw [if_neg (Ne.symm (hnone input mem_cons_self))]
        exact hlookup

theorem lookup_eraseInputs (vin : List CTxIn) (mapNextTx : Table COutPoint CInPoint)
    (outpoint : COutPoint) (inpoint : CInPoint) :
    (vin.foldl (fun mapNextTx txin => mapNextTx.erase txin.prevout) mapNextTx).lookup outpoint =
        some inpoint ↔
      (∀ txin ∈ vin, txin.prevout ≠ outpoint) ∧ mapNextTx.lookup outpoint = some inpoint := by
  induction vin generalizing mapNextTx with
  | nil => simp
  | cons txin vin ih =>
    rw [foldl_cons, ih, Table.lookup_erase_ite, forall_mem_cons]
    by_cases heq : outpoint = txin.prevout
    · rw [if_pos heq]
      constructor
      · intro h
        cases h.2
      · intro h
        exact absurd heq.symm h.1.1
    · rw [if_neg heq]
      constructor
      · intro h
        exact ⟨⟨Ne.symm heq, h.1⟩, h.2⟩
      · intro h
        exact ⟨h.1.2, h.2⟩

/-! ## The calls -/

section Calls

variable {env : ChainEnv} {known : CTransaction → Prop} {pool : CTxMemPool}

section

variable (h : PoolConsistent env known pool)
include h

/-- `addUnchecked` for a transaction that is new and conflicts with none of the pool. -/
theorem PoolConsistent.addUnchecked {tx : CTransaction}
    (hknown : known tx) (hnodup : (tx.vin.map CTxIn.prevout).Nodup)
    (hnew : env.txHash tx ∉ pool.mapTx)
    (hfree : ¬ ∃ txin ∈ tx.vin, txin.prevout ∈ pool.mapNextTx) :
    PoolConsistent env known (pool.addUnchecked (env.txHash tx) tx) := by
  have hnone : pool.mapTx.lookup (env.txHash tx) = none := Finmap.lookup_eq_none.mpr hnew
  have hlookup (hash : uint256) : (pool.addUnchecked (env.txHash tx) tx).mapTx.lookup hash =
      if hash = env.txHash tx then some tx else pool.mapTx.lookup hash :=
    Table.lookup_insert_ite hash (env.txHash tx) tx pool.mapTx
  refine ⟨?_, ?_, ?_⟩
  · intro outpoint inpoint
    have hnodup' : (tx.vin.zipIdx.map fun input => input.1.prevout).Nodup := by
      have hmap : (tx.vin.zipIdx.map fun input => input.1.prevout) = tx.vin.map CTxIn.prevout := by
        have hfst := congrArg (List.map CTxIn.prevout) (zipIdx_map_fst 0 tx.vin)
        rw [List.map_map] at hfst
        exact hfst
      rw [hmap]
      exact hnodup
    have hnext : (pool.addUnchecked (env.txHash tx) tx).mapNextTx.lookup outpoint = some inpoint ↔
        _ := lookup_insertInputs hnodup' pool.mapNextTx outpoint inpoint
    rw [hnext, h.spends outpoint inpoint, hlookup]
    constructor
    · intro hentry
      rcases hentry with ⟨input, hmem, hspends, rfl⟩ | ⟨-, old, txin, hold, hget, hspends⟩
      · rw [if_pos rfl]
        exact ⟨tx, input.1, rfl, mem_zipIdx_iff_getElem?.mp hmem, hspends⟩
      · refine ⟨old, txin, ?_, hget, hspends⟩
        rw [if_neg (fun heq => by rw [heq, hnone] at hold; cases hold)]
        exact hold
    · intro hinput
      obtain ⟨other, txin, hother, hget, hspends⟩ := hinput
      by_cases hptx : inpoint.ptx = env.txHash tx
      · rw [if_pos hptx] at hother
        cases hother
        refine Or.inl ⟨(txin, inpoint.n), mem_zipIdx_iff_getElem?.mpr hget, hspends, ?_⟩
        rw [← hptx]
      · rw [if_neg hptx] at hother
        refine Or.inr ⟨?_, other, txin, hother, hget, hspends⟩
        -- The output is spent in the pool already, so the new transaction does not spend it.
        intro input hmem heq
        have hold := (h.spends outpoint inpoint).mpr ⟨other, txin, hother, hget, hspends⟩
        exact hfree ⟨input.1, fst_mem_of_mem_zipIdx hmem, Finmap.mem_of_lookup_eq_some (heq ▸ hold)⟩
  · intro hash tx' hmem
    rw [hlookup] at hmem
    split at hmem
    · next heq =>
      cases hmem
      exact heq.symm
    · exact h.hashed hash tx' hmem
  · intro hash tx' hmem
    rw [hlookup] at hmem
    split at hmem
    · cases hmem
      exact hknown
    · exact h.seen hash tx' hmem

theorem PoolConsistent.accept {tx : CTransaction}
    (hknown : known tx) (A : PoolContext) (txdb : CTxDB) (fCheckInputs : Bool) :
    PoolConsistent env known (pool.accept env A txdb tx fCheckInputs).2 := by
  unfold CTxMemPool.accept
  dsimp only
  split_ifs with hcheck hcoinbase hlock hstandard hhave hindex hconflict
  all_goals first
    | exact h
    | exact h.addUnchecked hknown (CTransaction.nodup_of_checkTransaction hcheck) hhave hconflict

/-- `remove` takes away the inputs of the transaction that the pool holds, as long as no other
transaction has its hash. -/
theorem PoolConsistent.remove {tx : CTransaction} (hknown : known tx)
    (hinj : ∀ tx tx', known tx → known tx' → env.txHash tx = env.txHash tx' → tx = tx') :
    PoolConsistent env known (pool.remove env.txHash tx) := by
  unfold CTxMemPool.remove
  by_cases hmem : env.txHash tx ∈ pool.mapTx
  · rw [if_pos hmem]
    obtain ⟨stored, hstored⟩ := Finmap.mem_iff.mp hmem
    have hsame : stored = tx :=
      hinj stored tx (h.seen _ _ hstored) hknown (h.hashed _ _ hstored)
    subst hsame
    refine ⟨?_, ?_, ?_⟩
    · intro outpoint inpoint
      rw [lookup_eraseInputs, h.spends outpoint inpoint, Table.lookup_erase_ite]
      constructor
      · intro hentry
        obtain ⟨hnone, other, txin, hother, hget, hspends⟩ := hentry
        refine ⟨other, txin, ?_, hget, hspends⟩
        rw [if_neg]
        · exact hother
        · intro hptx
          rw [hptx, hstored] at hother
          cases hother
          exact hnone txin (mem_of_getElem? hget) hspends
      · intro hinput
        obtain ⟨other, txin, hother, hget, hspends⟩ := hinput
        split at hother
        · cases hother
        · next hptx =>
          refine ⟨?_, other, txin, hother, hget, hspends⟩
          intro spent hspent heq
          obtain ⟨i, hi⟩ := mem_iff_getElem?.mp hspent
          have hother' := (h.spends outpoint inpoint).mpr ⟨other, txin, hother, hget, hspends⟩
          have hstored' := (h.spends outpoint ⟨env.txHash stored, i⟩).mpr
            ⟨stored, spent, hstored, hi, heq⟩
          rw [hother'] at hstored'
          exact hptx (congrArg CInPoint.ptx (Option.some.inj hstored'))
    · intro hash tx' hlookup
      rw [Table.lookup_erase_ite] at hlookup
      split at hlookup
      · cases hlookup
      · exact h.hashed hash tx' hlookup
    · intro hash tx' hlookup
      rw [Table.lookup_erase_ite] at hlookup
      split at hlookup
      · cases hlookup
      · exact h.seen hash tx' hlookup
  · rw [if_neg hmem]
    exact h

theorem PoolConsistent.apply {op : MempoolOp} (hknown : ∀ tx ∈ op.tx?, known tx)
    (hinj : ∀ tx tx', known tx → known tx' → env.txHash tx = env.txHash tx' → tx = tx') :
    PoolConsistent env known (op.apply env pool) := by
  cases op with
  | accept A txdb tx fCheckInputs => exact h.accept (hknown tx rfl) A txdb fCheckInputs
  | remove tx => exact h.remove (hknown tx rfl) hinj
  | clear => exact poolConsistent_empty env known

end

/-- Entries that name one spending input each leave no output spent twice. -/
theorem SpendsListed.unique (h : SpendsListed pool) {hash hash' : uint256} {tx tx' : CTransaction}
    {i j : ℕ} {txin txin' : CTxIn} (htx : pool.mapTx.lookup hash = some tx)
    (htx' : pool.mapTx.lookup hash' = some tx') (hi : tx.vin[i]? = some txin)
    (hj : tx'.vin[j]? = some txin') (hsame : txin.prevout = txin'.prevout) :
    hash = hash' ∧ i = j := by
  have hentry := (h txin'.prevout ⟨hash, i⟩).mpr ⟨tx, txin, htx, hi, hsame⟩
  have hentry' := (h txin'.prevout ⟨hash', j⟩).mpr ⟨tx', txin', htx', hj, rfl⟩
  rw [hentry] at hentry'
  have heq := Option.some.inj hentry'
  exact ⟨congrArg CInPoint.ptx heq, congrArg CInPoint.n heq⟩

end Calls

/-- No two transactions that the calls are given have the same hash. -/
def NoCollision (env : ChainEnv) (ops : List MempoolOp) : Prop :=
  ∀ op ∈ ops, ∀ op' ∈ ops, ∀ tx ∈ op.tx?, ∀ tx' ∈ op'.tx?, env.txHash tx = env.txHash tx' → tx = tx'

/-- After any calls, `mapNextTx` lists exactly the inputs of the transactions of the pool, and no
output is spent by two of them. -/
theorem mempool_spendsListed {env : ChainEnv} {ops : List MempoolOp} (h : NoCollision env ops) :
    SpendsListed (ops.foldl (MempoolOp.apply env) empty) ∧
      ∀ (hash hash' : uint256) (tx tx' : CTransaction) (i j : ℕ) (txin txin' : CTxIn),
        (ops.foldl (MempoolOp.apply env) empty).mapTx.lookup hash = some tx →
        (ops.foldl (MempoolOp.apply env) empty).mapTx.lookup hash' = some tx' →
        tx.vin[i]? = some txin → tx'.vin[j]? = some txin' → txin.prevout = txin'.prevout →
        hash = hash' ∧ i = j := by
  have hrun (known : CTransaction → Prop)
      (hinj : ∀ tx tx', known tx → known tx' → env.txHash tx = env.txHash tx' → tx = tx')
      (todo : List MempoolOp) (hknown : ∀ op ∈ todo, ∀ tx ∈ op.tx?, known tx) (pool : CTxMemPool)
      (hpool : PoolConsistent env known pool) :
      PoolConsistent env known (todo.foldl (MempoolOp.apply env) pool) := by
    induction todo generalizing pool with
    | nil => exact hpool
    | cons op todo ih =>
      exact ih (fun op' hmem => hknown op' (mem_cons_of_mem _ hmem)) _
        (hpool.apply (hknown op mem_cons_self) hinj)
  have hfinal := hrun (fun tx => ∃ op ∈ ops, tx ∈ op.tx?)
    (fun tx tx' ⟨op, hop, htx⟩ ⟨op', hop', htx'⟩ heq => h op hop op' hop' tx htx tx' htx' heq)
    ops (fun op hop tx htx => ⟨op, hop, htx⟩) empty (poolConsistent_empty env _)
  refine ⟨hfinal.spends, ?_⟩
  intro hash hash' tx tx' i j txin txin' htx htx' hi hj hsame
  exact hfinal.spends.unique htx htx' hi hj hsame

namespace PoolExample

def poolEnv : ChainEnv where
  fTestNet := false
  nBaseMaturity := 0
  totalBlocksEstimate := 0
  txHash tx := tx.nLockTime + 1
  blockHash header := header.nNonce + 1
  checkProofOfWork _ := true
  buildMerkleTree _ := 0
  getSigOpCount _ _ := 0
  getP2SHSigOpCount _ _ := 0
  isPayToScriptHash _ := false
  verifyScript _ _ _ _ _ _ := true
  blockFileTx _ _ := none
  blockFileBlock _ _ := none

def poolContext : PoolContext where
  ctx := ⟨0, 0, ∅⟩
  outcome := fun _ => true
  isStandard := fun _ => true
  areInputsStandard := fun _ _ => true
  acceptsFee := fun _ _ => true
  pindexBest := ⟨none, none, none, 1, 0, 0, 0, 2, 0, 0, 0, 0⟩
  pprevs := []

/-- Transactions `i` that spend output 0 of transaction `hash`. -/
def spending (hash i : ℕ) : CTransaction where
  vin := [⟨⟨hash, 0⟩, [], uintMax⟩]
  vout := [⟨0, []⟩]
  nLockTime := i

/-- A transaction, one that conflicts with it, and the first one once more after it was removed. -/
def poolOps : List MempoolOp :=
  [.accept poolContext ⟨⟨∅, ∅, none, none⟩, none⟩ (spending 90 1) false,
    .accept poolContext ⟨⟨∅, ∅, none, none⟩, none⟩ (spending 90 2) false,
    .remove (spending 90 1),
    .accept poolContext ⟨⟨∅, ∅, none, none⟩, none⟩ (spending 90 2) false]

end PoolExample

open PoolExample in
theorem mempool_spendsListed_poolOps :
    (poolOps.foldl (MempoolOp.apply poolEnv) empty).mapTx = Finmap.singleton 3 (spending 90 2) ∧
      SpendsListed (poolOps.foldl (MempoolOp.apply poolEnv) empty) := by
  have hdistinct : NoCollision poolEnv poolOps := by
    unfold NoCollision
    decide
  exact ⟨by decide, (mempool_spendsListed hdistinct).1⟩

end Phoenixcoin.Analysis
