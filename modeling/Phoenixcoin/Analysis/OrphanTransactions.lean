import Phoenixcoin.Analysis.PoolAndChain
import Phoenixcoin.Lib.SortedKeys
import Phoenixcoin.Program.OrphanTransactions

/-!
# The index of the orphan transactions

`mapOrphanTransactionsByPrev` finds under each parent of an orphan exactly that orphan, in every
run. The loop that adopts orphans reads the index with a subscript for every transaction that it
accepts, and the inner map made for one that no orphan spends stays in the index. So the index is
exact in the runs in which each accepted transaction is spent by some orphan.
-/

set_option autoImplicit false

namespace Phoenixcoin.Analysis

open Program Lib List InvertedIndex OrphanTxMaps TxMessage CTransaction

def orphanTx (hash : uint256) (m : OrphanTxMaps) : Option CTransaction :=
  (m.mapOrphanTransactions.lookup hash).bind fun pvMsg => (m.heap.lookup pvMsg).bind decodeTx

/-- The maps agree about the orphans: a pointer leads to a transaction with the hash that it is
stored under, and the index has it under each of its parents. -/
structure Indexed (env : ChainEnv) (m : OrphanTxMaps) : Prop where
  stored : ∀ hash pvMsg, m.mapOrphanTransactions.lookup hash = some pvMsg →
    ∃ vMsg tx, m.heap.lookup pvMsg = some vMsg ∧ decodeTx vMsg = some tx ∧ env.txHash tx = hash
  listed : ∀ prev hash pvMsg, m.mapOrphanTransactionsByPrev.find prev hash = some pvMsg ↔
    m.mapOrphanTransactions.lookup hash = some pvMsg ∧
      ∃ tx, orphanTx hash m = some tx ∧ prev ∈ tx.parents

section Maps

variable {env : ChainEnv} {m m' : OrphanTxMaps}

variable {hash : uint256} {vMsg : List UInt8} {fAdded : Bool} {hashes : List uint256}

theorem orphanTx_eq {pvMsg : ℕ} (hlookup : m.mapOrphanTransactions.lookup hash = some pvMsg)
    (hheap : m.heap.lookup pvMsg = some vMsg) : orphanTx hash m = decodeTx vMsg := by
  rw [orphanTx, hlookup, Option.bind_some, hheap, Option.bind_some]

theorem lookup_of_orphanTx {tx : CTransaction} (h : orphanTx hash m = some tx) :
    ∃ pvMsg vMsg, m.mapOrphanTransactions.lookup hash = some pvMsg ∧
      m.heap.lookup pvMsg = some vMsg ∧ decodeTx vMsg = some tx := by
  obtain ⟨pvMsg, hlookup, h⟩ := Option.bind_eq_some_iff.mp h
  obtain ⟨vMsg, hheap, hdecode⟩ := Option.bind_eq_some_iff.mp h
  exact ⟨pvMsg, vMsg, hlookup, hheap, hdecode⟩

/-- No two hashes share a pointer. -/
theorem Indexed.pointer_inj (h : Indexed env m) {hash' : uint256} {pvMsg : ℕ}
    (hlookup : m.mapOrphanTransactions.lookup hash = some pvMsg)
    (hlookup' : m.mapOrphanTransactions.lookup hash' = some pvMsg) : hash = hash' := by
  obtain ⟨vMsg, tx, hheap, hdecode, hhash⟩ := h.stored hash pvMsg hlookup
  obtain ⟨vMsg', tx', hheap', hdecode', hhash'⟩ := h.stored hash' pvMsg hlookup'
  rw [hheap] at hheap'
  cases hheap'
  rw [hdecode] at hdecode'
  cases hdecode'
  exact hhash.symm.trans hhash'

theorem indexed_empty (env : ChainEnv) : Indexed env .empty := by
  have hnone (hash : uint256) :
      empty.mapOrphanTransactions.lookup hash = none := Finmap.lookup_empty hash
  constructor
  · intro hash pvMsg hlookup
    cases hlookup
  · intro prev hash pvMsg
    have hfind : empty.mapOrphanTransactionsByPrev.find prev hash = none :=
      find_of_lookup_none (Finmap.lookup_empty prev)
    rw [hfind, hnone]
    simp

/-! ## An orphan is added -/

/-- `AddOrphanTx` with its new object: it leaves the maps as they are, or adds the transaction
under a pointer that is not in use. -/
theorem AddOrphanTx_cases (h : m.AddOrphanTx env vMsg = some (fAdded, m')) :
    m' = m ∨ ∃ tx pvMsg, decodeTx vMsg = some tx ∧ pvMsg ∉ m.heap ∧
      m.mapOrphanTransactions.lookup (env.txHash tx) = none ∧
      m' = ⟨m.heap.insert pvMsg vMsg, m.mapOrphanTransactions.insert (env.txHash tx) pvMsg,
        tx.parents.foldl (put (env.txHash tx) pvMsg)
          m.mapOrphanTransactionsByPrev⟩ := by
  obtain ⟨tx, hdecode, h⟩ := Option.bind_eq_some_iff.mp h
  by_cases hknown : env.txHash tx ∈ m.mapOrphanTransactions
  · simp only [hknown, if_true] at h
    cases h
    exact Or.inl rfl
  · by_cases hsize : vMsg.length > 5000
    · simp only [hknown, hsize, if_true, if_false] at h
      cases h
      exact Or.inl rfl
    · simp only [hknown, hsize, if_false] at h
      cases h
      refine Or.inr ⟨tx, m.heap.keys.sup id + 1, hdecode, ?_, Finmap.lookup_eq_none.mpr hknown, rfl⟩
      intro hmem
      have hle : m.heap.keys.sup id + 1 ≤ m.heap.keys.sup id :=
        @Finset.le_sup _ _ _ _ m.heap.keys id _ (Finmap.mem_keys.mpr hmem)
      omega

theorem Indexed.addOrphanTx (h : Indexed env m) (hadd : m.AddOrphanTx env vMsg = some (fAdded, m'))
    :
    Indexed env m' := by
  rcases AddOrphanTx_cases hadd with rfl | ⟨tx, pvMsg, hdecode, hfresh, hnew, rfl⟩
  · exact h
  · have hheap {p : ℕ} {bytes : List UInt8} (hp : m.heap.lookup p = some bytes) :
        (m.heap.insert pvMsg vMsg).lookup p = some bytes := by
      have hne : p ≠ pvMsg := fun heq => hfresh (heq ▸ Finmap.mem_iff.mpr ⟨bytes, hp⟩)
      rw [Finmap.lookup_insert_of_ne _ hne, hp]
    have horphan {hash : uint256} (hne : hash ≠ env.txHash tx) :
        orphanTx hash ⟨m.heap.insert pvMsg vMsg,
          m.mapOrphanTransactions.insert (env.txHash tx) pvMsg,
          tx.parents.foldl (put (env.txHash tx) pvMsg)
            m.mapOrphanTransactionsByPrev⟩ = orphanTx hash m := by
      unfold orphanTx
      rw [Finmap.lookup_insert_of_ne _ hne]
      cases hlookup : m.mapOrphanTransactions.lookup hash with
      | none => rfl
      | some p =>
        obtain ⟨bytes, -, hbytes, -⟩ := h.stored hash p hlookup
        rw [Option.bind_some, Option.bind_some, hheap hbytes, hbytes]
    constructor
    · intro hash p hlookup
      rw [Table.lookup_insert_ite] at hlookup
      split at hlookup
      · next heq =>
        cases hlookup
        exact ⟨vMsg, tx, Finmap.lookup_insert _, hdecode, heq.symm⟩
      · obtain ⟨bytes, other, hbytes, hother⟩ := h.stored hash p hlookup
        exact ⟨bytes, other, hheap hbytes, hother⟩
    · intro prev hash p
      rw [find_foldl_put, Table.lookup_insert_ite]
      by_cases heq : hash = env.txHash tx
      · subst heq
        have hself : orphanTx (env.txHash tx) ⟨m.heap.insert pvMsg vMsg,
            m.mapOrphanTransactions.insert (env.txHash tx) pvMsg,
            tx.parents.foldl (put (env.txHash tx) pvMsg)
              m.mapOrphanTransactionsByPrev⟩ = some tx := by
          rw [orphanTx_eq (Finmap.lookup_insert _) (Finmap.lookup_insert _), hdecode]
        have hnone : m.mapOrphanTransactionsByPrev.find prev (env.txHash tx) = none := by
          apply Option.eq_none_iff_forall_ne_some.mpr
          intro q hq
          have hlookup := ((h.listed prev _ q).mp hq).1
          rw [hnew] at hlookup
          cases hlookup
        rw [hself, hnone]
        by_cases hprev : prev ∈ tx.parents
        · simp [hprev]
        · simp [hprev]
      · rw [if_neg fun hand => heq hand.2, if_neg heq, horphan heq]
        exact h.listed prev hash p

theorem noneEmpty_addOrphanTx (h : m.mapOrphanTransactionsByPrev.NoneEmpty)
    (hadd : m.AddOrphanTx env vMsg = some (fAdded, m')) :
    m'.mapOrphanTransactionsByPrev.NoneEmpty := by
  rcases AddOrphanTx_cases hadd with rfl | ⟨tx, pvMsg, -, -, -, rfl⟩
  · exact h
  · exact h.foldl_put _ _ _

/-! ## Orphans are erased -/

structure Erased (env : ChainEnv) (hashes : List uint256) (m m' : OrphanTxMaps) : Prop where
  indexed : Indexed env m'
  lookup : ∀ hash, m'.mapOrphanTransactions.lookup hash =
    if hash ∈ hashes then none else m.mapOrphanTransactions.lookup hash
  orphan : ∀ hash, hash ∉ hashes → orphanTx hash m' = orphanTx hash m
  noneEmpty : m.mapOrphanTransactionsByPrev.NoneEmpty → m'.mapOrphanTransactionsByPrev.NoneEmpty
  unspent : ∀ prev, (∀ hash, m.mapOrphanTransactionsByPrev.find prev hash = none) →
    m'.mapOrphanTransactionsByPrev.lookup prev = m.mapOrphanTransactionsByPrev.lookup prev

theorem erased_nil (h : Indexed env m) : Erased env [] m m where
  indexed := h
  lookup hash := by simp
  orphan _ _ := rfl
  noneEmpty hnone := hnone
  unspent _ _ := rfl

theorem Erased.append {hashes' : List uint256} {m'' : OrphanTxMaps} (h : Erased env hashes m m')
    (h' : Erased env hashes' m' m'') :
    Erased env (hashes ++ hashes') m m'' where
  indexed := h'.indexed
  lookup hash := by
    rw [h'.lookup, h.lookup]
    by_cases hmem : hash ∈ hashes
    · simp [hmem]
    · by_cases hmem' : hash ∈ hashes'
      · simp [hmem']
      · simp [hmem, hmem']
  orphan hash hnot := by
    rw [mem_append, not_or] at hnot
    rw [h'.orphan hash hnot.2, h.orphan hash hnot.1]
  noneEmpty hnone := h'.noneEmpty (h.noneEmpty hnone)
  unspent prev hnone := by
    have hlookup := h.unspent prev hnone
    have hfind (hash : uint256) : m'.mapOrphanTransactionsByPrev.find prev hash = none := by
      rw [find, hlookup]
      exact hnone hash
    rw [h'.unspent prev hfind, hlookup]

/-- `EraseOrphanTx` follows no pointer to a deleted object, and erases one orphan. -/
theorem EraseOrphanTx_spec (h : Indexed env m) (hash : uint256) :
    ∃ m', m.EraseOrphanTx hash = some m' ∧ Erased env [hash] m m' := by
  cases hlookup : m.mapOrphanTransactions.lookup hash with
  | none =>
    have herase : m.EraseOrphanTx hash = some m := by
      rw [EraseOrphanTx, hlookup]
    refine ⟨m, herase, h, ?_, fun _ _ => rfl, fun hnone => hnone, fun _ _ => rfl⟩
    intro other
    split
    · next heq => rw [mem_singleton.mp heq, hlookup]
    · rfl
  | some pvMsg =>
    obtain ⟨vMsg, tx, hheap, hdecode, hhash⟩ := h.stored hash pvMsg hlookup
    have hself : orphanTx hash m = some tx := by rw [orphanTx_eq hlookup hheap, hdecode]
    have herase : m.EraseOrphanTx hash = some ⟨m.heap.erase pvMsg,
        m.mapOrphanTransactions.erase hash,
        tx.parents.foldl (remove hash) m.mapOrphanTransactionsByPrev⟩ := by
      rw [EraseOrphanTx, hlookup]
      dsimp only
      rw [hheap, Option.bind_eq_bind, Option.bind_some, hdecode, Option.bind_eq_bind]
      rfl
    have hkept {other : uint256} {p : ℕ} (hne : other ≠ hash)
        (hother : m.mapOrphanTransactions.lookup other = some p) :
        (m.heap.erase pvMsg).lookup p = m.heap.lookup p := by
      apply Finmap.lookup_erase_ne
      intro heq
      subst heq
      exact hne (h.pointer_inj hother hlookup)
    have horphan {other : uint256} (hne : other ≠ hash) :
        orphanTx other ⟨m.heap.erase pvMsg, m.mapOrphanTransactions.erase hash,
          tx.parents.foldl (remove hash) m.mapOrphanTransactionsByPrev⟩ =
            orphanTx other m := by
      unfold orphanTx
      rw [Finmap.lookup_erase_ne hne]
      cases hother : m.mapOrphanTransactions.lookup other with
      | none => rfl
      | some p => rw [Option.bind_some, Option.bind_some, hkept hne hother]
    refine ⟨_, herase, ⟨?_, ?_⟩, ?_, ?_, ?_, ?_⟩
    · intro other p hother
      rw [Table.lookup_erase_ite] at hother
      split at hother
      · cases hother
      · next hne =>
        obtain ⟨bytes, tx', hbytes, htx'⟩ := h.stored other p hother
        exact ⟨bytes, tx', (hkept hne hother).trans hbytes, htx'⟩
    · intro prev other p
      rw [find_foldl_remove, Table.lookup_erase_ite]
      by_cases heq : other = hash
      · subst heq
        by_cases hprev : prev ∈ tx.parents
        · simp [hprev]
        · rw [if_neg fun hand => hprev hand.1, h.listed prev other p, hself]
          simp [hprev]
      · rw [if_neg fun hand => heq hand.2, if_neg heq, horphan heq]
        exact h.listed prev other p
    · intro other
      rw [Table.lookup_erase_ite]
      simp
    · intro other hnot
      exact horphan fun heq => hnot (mem_singleton.mpr heq)
    · intro hnone
      exact hnone.foldl_remove _ _
    · intro prev hnone
      apply lookup_foldl_remove
      intro hprev
      have hfind := (h.listed prev hash pvMsg).mpr ⟨hlookup, tx, hself, hprev⟩
      rw [hnone hash] at hfind
      cases hfind

/-- The loop over `vEraseQueue`. -/
theorem eraseQueue_spec (h : Indexed env m) (hashes : List uint256) :
    ∃ m', hashes.foldlM (fun m hash => m.EraseOrphanTx hash) m = some m' ∧
      Erased env hashes m m' := by
  induction hashes generalizing m with
  | nil => exact ⟨m, rfl, erased_nil h⟩
  | cons hash hashes ih =>
    obtain ⟨m1, hm1, h1⟩ := EraseOrphanTx_spec h hash
    obtain ⟨m2, hm2, h2⟩ := ih h1.indexed
    exact ⟨m2, foldlM_cons_eq_some.mpr ⟨m1, hm1, hm2⟩, h1.append h2⟩

theorem Erased.keys (h : Erased env hashes m m') :
    m'.mapOrphanTransactions.keys = m.mapOrphanTransactions.keys \ hashes.toFinset := by
  ext hash
  rw [Finset.mem_sdiff, Finmap.mem_keys, Finmap.mem_keys, ← Finmap.lookup_isSome,
    ← Finmap.lookup_isSome, h.lookup]
  by_cases hmem : hash ∈ hashes
  · simp [hmem]
  · simp [hmem]

theorem Erased.card_le (h : Erased env hashes m m') :
    m'.mapOrphanTransactions.keys.card ≤ m.mapOrphanTransactions.keys.card := by
  rw [h.keys]
  exact Finset.card_le_card Finset.sdiff_subset

theorem limitOrphans_spec (h : Indexed env m) (order : UnorderedMapOrder) (nMaxOrphans n : ℕ)
    (hn : m.mapOrphanTransactions.keys.card ≤ n) :
    ∃ m' hashes, m.limitOrphans order nMaxOrphans n = some m' ∧ Erased env hashes m m' ∧
      m'.mapOrphanTransactions.keys.card ≤ nMaxOrphans := by
  induction n generalizing m with
  | zero => exact ⟨m, [], rfl, erased_nil h, by omega⟩
  | succ n ih =>
    by_cases hmax : m.mapOrphanTransactions.keys.card > nMaxOrphans
    · have hne : m.mapOrphanTransactions ≠ ∅ := by
        intro hempty
        rw [hempty, Finmap.keys_empty, Finset.card_empty] at hmax
        omega
      have hpick := order.pick_mem n _ hne
      obtain ⟨m1, hm1, h1⟩ := EraseOrphanTx_spec h (order.pick n m.mapOrphanTransactions)
      have hcard : m1.mapOrphanTransactions.keys.card ≤ n := by
        rw [h1.keys, toFinset_cons, toFinset_nil, insert_empty_eq,
          Finset.sdiff_singleton_eq_erase, Finset.card_erase_of_mem (Finmap.mem_keys.mpr hpick)]
        omega
      obtain ⟨m2, hashes, hm2, h2, hle⟩ := ih h1.indexed hcard
      refine ⟨m2, [order.pick n m.mapOrphanTransactions] ++ hashes, ?_, h1.append h2, hle⟩
      rw [limitOrphans, if_pos hmax, hm1, Option.bind_some, hm2]
    · refine ⟨m, [], ?_, erased_nil h, by omega⟩
      rw [limitOrphans, if_neg hmax]

theorem LimitOrphanTxSize_spec (h : Indexed env m) (order : UnorderedMapOrder) (nMaxOrphans : ℕ) :
    ∃ m' hashes, m.LimitOrphanTxSize order nMaxOrphans = some m' ∧ Erased env hashes m m' ∧
      m'.mapOrphanTransactions.keys.card ≤ nMaxOrphans :=
  limitOrphans_spec h order nMaxOrphans _ le_rfl

end Maps

/-! ## Orphans are adopted -/

section Adopt

variable {env : ChainEnv} {msg : TxMessage} {m : OrphanTxMaps}

/-- What a call of `accept` does to the pool. -/
theorem acceptToMemoryPool_cases (env : ChainEnv) (msg : TxMessage) (i : ℕ) (tx : CTransaction)
    (pool : CTxMemPool) :
    (msg.acceptToMemoryPool env i tx pool).1.fAccepted = true ∧ env.txHash tx ∉ pool.mapTx ∧
        (msg.acceptToMemoryPool env i tx pool).2.mapTx = pool.mapTx.insert (env.txHash tx) tx ∨
      (msg.acceptToMemoryPool env i tx pool).1.fAccepted = false ∧
        (msg.acceptToMemoryPool env i tx pool).2 = pool := by
  unfold acceptToMemoryPool CTxMemPool.accept
  dsimp only
  by_cases hnew : env.txHash tx ∈ pool.mapTx
  · right
    split_ifs
    all_goals exact ⟨rfl, rfl⟩
  · simp only [if_true]
    split_ifs with hcheck hcoinbase hlock hstandard hindex hconflict haccepted
    all_goals first
      | exact Or.inl ⟨haccepted, hnew, rfl⟩
      | exact Or.inr ⟨rfl, rfl⟩
      | exact Or.inr ⟨Bool.eq_false_iff.mpr haccepted, rfl⟩

/-- How the loop over the orphans goes on: it queues orphans that enter the pool, each once. -/
structure Progress (m : OrphanTxMaps) (a a' : Adoption) (new : List uint256) : Prop where
  queued : a'.vWorkQueue = a.vWorkQueue ++ new
  nodup : new.Nodup
  stored : ∀ hash ∈ new, hash ∈ m.mapOrphanTransactions
  fresh : ∀ hash ∈ new, hash ∉ a.pool.mapTx
  pool : ∀ hash, hash ∈ a'.pool.mapTx ↔ hash ∈ a.pool.mapTx ∨ hash ∈ new
  erased : ∀ hash ∈ a.vEraseQueue, hash ∈ a'.vEraseQueue
  calls : a.calls <+: a'.calls

theorem Progress.refl (m : OrphanTxMaps) (a : Adoption) : Progress m a a [] where
  queued := (append_nil _).symm
  nodup := nodup_nil
  stored _ h := absurd h not_mem_nil
  fresh _ h := absurd h not_mem_nil
  pool hash := by simp
  erased _ h := h
  calls := prefix_rfl

variable {a a' : Adoption} {new : List uint256}

theorem Progress.trans {a'' : Adoption} {new' : List uint256} (h : Progress m a a' new)
    (h' : Progress m a' a'' new') :
    Progress m a a'' (new ++ new') where
  queued := by rw [h'.queued, h.queued, append_assoc]
  nodup := by
    refine nodup_append.mpr ⟨h.nodup, h'.nodup, ?_⟩
    intro hash hmem hash' hmem' heq
    subst heq
    exact h'.fresh hash hmem' ((h.pool hash).mpr (Or.inr hmem))
  stored hash hmem := (mem_append.mp hmem).elim (h.stored hash) (h'.stored hash)
  fresh hash hmem := by
    rcases mem_append.mp hmem with hmem | hmem
    · exact h.fresh hash hmem
    · exact fun hpool => h'.fresh hash hmem ((h.pool hash).mpr (Or.inl hpool))
  pool hash := by rw [h'.pool, h.pool, mem_append, or_assoc]
  erased hash hmem := h'.erased hash (h.erased hash hmem)
  calls := h.calls.trans h'.calls

theorem Progress.call (h : Progress m a a' new) {i : ℕ} {call : CTransaction × CTxMemPool}
    (hcall : a.calls[i]? = some call) :
    a'.calls[i]? = some call := by
  obtain ⟨hlt, heq⟩ := List.getElem?_eq_some_iff.mp hcall
  rw [prefix_iff_getElem?.mp h.calls i hlt, heq]

/-- An orphan that a call of `AcceptToMemoryPool` refused because of missing inputs. -/
def RefusedAt (env : ChainEnv) (msg : TxMessage) (tx : CTransaction) (i : ℕ) (pool : CTxMemPool) :
    Prop :=
  (msg.acceptToMemoryPool env i tx pool).1.fAccepted = false ∧
    (msg.acceptToMemoryPool env i tx pool).1.fMissingInputs = true

/-- The body of the inner loop. -/
theorem tryOrphan_spec (h : Indexed env m) {hash : uint256} {pvMsg : ℕ}
    (hlookup : m.mapOrphanTransactions.lookup hash = some pvMsg) (a : Adoption) :
    ∃ tx a' new, orphanTx hash m = some tx ∧ msg.tryOrphan env m a (hash, pvMsg) = some a' ∧
      Progress m a a' new ∧ a'.calls = a.calls ++ [(tx, a.pool)] ∧
      (hash ∈ a'.vEraseQueue ∨ RefusedAt env msg tx a.calls.length a.pool) := by
  obtain ⟨vMsg, tx, hheap, hdecode, rfl⟩ := h.stored hash pvMsg hlookup
  have horphan : orphanTx (env.txHash tx) m = some tx := by rw [orphanTx_eq hlookup hheap, hdecode]
  have hbody : msg.tryOrphan env m a (env.txHash tx, pvMsg) =
      let result := msg.acceptToMemoryPool env a.calls.length tx a.pool
      let next : Adoption := { a with calls := a.calls ++ [(tx, a.pool)], pool := result.2 }
      some (if result.1.fAccepted then
          { next with
            vWorkQueue := a.vWorkQueue ++ [env.txHash tx]
            vEraseQueue := a.vEraseQueue ++ [env.txHash tx] }
        else if ¬ result.1.fMissingInputs then
          { next with vEraseQueue := a.vEraseQueue ++ [env.txHash tx] }
        else next) := by
    unfold tryOrphan
    rw [hheap, Option.bind_eq_bind, Option.bind_some, hdecode, Option.bind_eq_bind]
    rfl
  rw [hbody]
  rcases acceptToMemoryPool_cases env msg a.calls.length tx a.pool with
    ⟨haccepted, hnew, hpool⟩ | ⟨hrefused, hpool⟩
  · refine ⟨tx, _, [env.txHash tx], horphan, rfl, ?_, ?_, ?_⟩
    · rw [if_pos haccepted]
      refine ⟨rfl, nodup_singleton _, ?_, ?_, ?_, ?_, prefix_append _ _⟩
      · intro hash hmem
        rw [mem_singleton.mp hmem]
        exact Finmap.mem_iff.mpr ⟨pvMsg, hlookup⟩
      · intro hash hmem
        rw [mem_singleton.mp hmem]
        exact hnew
      · intro hash
        rw [hpool, Finmap.mem_insert, mem_singleton, or_comm]
      · intro hash hmem
        exact mem_append_left _ hmem
    · rw [if_pos haccepted]
    · rw [if_pos haccepted]
      exact Or.inl (mem_append_right _ mem_cons_self)
  · have hsame (hash : uint256) :
        hash ∈ (msg.acceptToMemoryPool env a.calls.length tx a.pool).2.mapTx ↔
          hash ∈ a.pool.mapTx ∨ hash ∈ ([] : List uint256) := by
      rw [hpool]
      simp
    refine ⟨tx, _, [], horphan, rfl, ?_, ?_, ?_⟩
    · rw [if_neg (Bool.eq_false_iff.mp hrefused)]
      split
      · exact ⟨(append_nil _).symm, nodup_nil, by simp, by simp, hsame,
          fun hash hmem => mem_append_left _ hmem, prefix_append _ _⟩
      · exact ⟨(append_nil _).symm, nodup_nil, by simp, by simp, hsame,
          fun hash hmem => hmem, prefix_append _ _⟩
    · rw [if_neg (Bool.eq_false_iff.mp hrefused)]
      split
      · rfl
      · rfl
    · rw [if_neg (Bool.eq_false_iff.mp hrefused)]
      split
      · exact Or.inl (mem_append_right _ mem_cons_self)
      · next hmissing => exact Or.inr ⟨hrefused, not_not.mp hmissing⟩

theorem tryOrphans_spec (h : Indexed env m) {items : List (uint256 × ℕ)}
    (hitems : ∀ item ∈ items, m.mapOrphanTransactions.lookup item.1 = some item.2) (a : Adoption) :
    ∃ a' new, items.foldlM (msg.tryOrphan env m) a = some a' ∧ Progress m a a' new ∧
      ∀ item ∈ items, ∀ tx, orphanTx item.1 m = some tx → item.1 ∈ a'.vEraseQueue ∨
        ∃ i pool, a'.calls[i]? = some (tx, pool) ∧ RefusedAt env msg tx i pool ∧
          ∀ hash ∈ a.pool.mapTx, hash ∈ pool.mapTx := by
  induction items generalizing a with
  | nil => exact ⟨a, [], rfl, .refl m a, fun item hmem => absurd hmem not_mem_nil⟩
  | cons item items ih =>
    rw [forall_mem_cons] at hitems
    obtain ⟨tx, a1, new1, horphan, hstep, hprogress1, hcalls, htried⟩ :=
      @tryOrphan_spec env msg m h item.1 item.2 hitems.1 a
    obtain ⟨a2, new2, hrest, hprogress2, hall⟩ := ih hitems.2 a1
    refine ⟨a2, new1 ++ new2, foldlM_cons_eq_some.mpr ⟨a1, hstep, hrest⟩,
      hprogress1.trans hprogress2, ?_⟩
    intro item' hmem tx' htx'
    rcases mem_cons.mp hmem with rfl | hmem
    · rw [horphan] at htx'
      cases htx'
      rcases htried with herased | hrefused
      · exact Or.inl (hprogress2.erased _ herased)
      · have hcall : a1.calls[a.calls.length]? = some (tx, a.pool) := by
          rw [hcalls, getElem?_concat_length]
        exact Or.inr ⟨a.calls.length, a.pool, hprogress2.call hcall, hrefused, fun _ hpool => hpool⟩
    · rcases hall item' hmem tx' htx' with herased | ⟨i, pool, hcall, hrefused, hpool⟩
      · exact Or.inl herased
      · refine Or.inr ⟨i, pool, hcall, hrefused, ?_⟩
        intro hash hmem
        exact hpool hash ((hprogress1.pool hash).mpr (Or.inl hmem))

/-- The maps after the subscripts of some hashes were read. -/
def opened (done : List uint256) (m : OrphanTxMaps) : OrphanTxMaps :=
  { m with
    mapOrphanTransactionsByPrev :=
      done.foldl (fun byPrev hash => byPrev.touch hash) m.mapOrphanTransactionsByPrev }

/-- The maps after the subscripts of some hashes were read. -/
theorem Indexed.opened (h : Indexed env m) (done : List uint256) : Indexed env (opened done m) where
  stored := h.stored
  listed prev hash pvMsg := by
    rw [Analysis.opened, find_foldl_touch]
    exact h.listed prev hash pvMsg

/-- The state of the loop over `vWorkQueue` once the hashes in `done` were read: the pool has got
the transactions that are or were queued, and each orphan that spends one of `done` is to be
erased or was refused when the pool had all of its parents among `done`. -/
structure Adopting (env : ChainEnv) (msg : TxMessage) (m : OrphanTxMaps) (start : CTxMemPool)
    (done : List uint256) (a : Adoption) : Prop where
  entered : ∀ hash, hash ∈ a.pool.mapTx ↔ hash ∈ start.mapTx ∨ hash ∈ done ++ a.vWorkQueue
  fresh : ∀ hash ∈ done ++ a.vWorkQueue, hash ∉ start.mapTx
  settled : ∀ hash tx, orphanTx hash m = some tx → (∃ prev ∈ done, prev ∈ tx.parents) →
    hash ∈ a.vEraseQueue ∨ ∃ i before, a.calls[i]? = some (tx, before) ∧
      RefusedAt env msg tx i before ∧ ∀ prev ∈ done, prev ∈ tx.parents → prev ∈ before.mapTx

def outside (m : OrphanTxMaps) (pool : CTxMemPool) : Finset uint256 :=
  m.mapOrphanTransactions.keys.filter fun hash => hash ∉ pool.mapTx

/-- The orphans that are not in the pool. -/
theorem Progress.outside (h : Progress m a a' new) :
    (outside m a'.pool).card + new.length = (outside m a.pool).card := by
  have hsub : new.toFinset ⊆ Analysis.outside m a.pool := by
    intro hash hmem
    rw [List.mem_toFinset] at hmem
    exact Finset.mem_filter.mpr ⟨Finmap.mem_keys.mpr (h.stored hash hmem), h.fresh hash hmem⟩
  have hdiff : Analysis.outside m a'.pool = Analysis.outside m a.pool \ new.toFinset := by
    ext hash
    simp only [Analysis.outside, Finset.mem_filter, Finset.mem_sdiff, List.mem_toFinset, h.pool]
    tauto
  rw [hdiff, ← toFinset_card_of_nodup h.nodup]
  exact Finset.card_sdiff_add_card_eq_card hsub

/-- One round of the loop over `vWorkQueue`. -/
theorem Adopting.round (h : Indexed env m) {start : CTxMemPool} {done vWorkQueue : List uint256}
    {hashPrev : uint256} (hinv : Adopting env msg m start done a)
    (hqueue : a.vWorkQueue = hashPrev :: vWorkQueue)
    (hprogress : Progress m { a with vWorkQueue := vWorkQueue } a' new)
    (htried : ∀ hash pvMsg tx, m.mapOrphanTransactionsByPrev.find hashPrev hash = some pvMsg →
      orphanTx hash m = some tx → hash ∈ a'.vEraseQueue ∨
        ∃ i before, a'.calls[i]? = some (tx, before) ∧ RefusedAt env msg tx i before ∧
          ∀ hash ∈ a.pool.mapTx, hash ∈ before.mapTx) :
    Adopting env msg m start (done ++ [hashPrev]) a' := by
  have hqueues (hash : uint256) : hash ∈ (done ++ [hashPrev]) ++ a'.vWorkQueue ↔
      hash ∈ done ++ a.vWorkQueue ∨ hash ∈ new := by
    rw [hprogress.queued, hqueue]
    simp only [mem_append, mem_cons, not_mem_nil, or_false]
    tauto
  refine ⟨?_, ?_, ?_⟩
  · intro hash
    rw [hprogress.pool hash, hqueues hash, hinv.entered hash, or_assoc]
  · intro hash hmem
    rcases (hqueues hash).mp hmem with hmem | hmem
    · exact hinv.fresh hash hmem
    · exact fun hpool => hprogress.fresh hash hmem ((hinv.entered hash).mpr (Or.inl hpool))
  · intro hash tx htx hparent
    by_cases hprev : hashPrev ∈ tx.parents
    · obtain ⟨pvMsg, vMsg, hlookup, -⟩ := lookup_of_orphanTx htx
      have hfind := (h.listed hashPrev hash pvMsg).mpr ⟨hlookup, tx, htx, hprev⟩
      rcases htried hash pvMsg tx hfind htx with herased | ⟨i, before, hcall, hrefused, hpool⟩
      · exact Or.inl herased
      · refine Or.inr ⟨i, before, hcall, hrefused, ?_⟩
        intro prev hmem _
        apply hpool
        apply (hinv.entered prev).mpr
        right
        rw [hqueue]
        rcases mem_append.mp hmem with hmem | hmem
        · exact mem_append_left _ hmem
        · rw [mem_singleton.mp hmem]
          exact mem_append_right _ mem_cons_self
    · -- The round reads another parent's orphans, so nothing changes for this one.
      have hdone {prev : uint256} (hmem : prev ∈ done ++ [hashPrev]) (hin : prev ∈ tx.parents) :
          prev ∈ done := by
        rcases mem_append.mp hmem with hmem | hmem
        · exact hmem
        · rw [mem_singleton.mp hmem] at hin
          exact absurd hin hprev
      obtain ⟨prev, hmem, hin⟩ := hparent
      rcases hinv.settled hash tx htx ⟨prev, hdone hmem hin, hin⟩ with
        herased | ⟨i, before, hcall, hrefused, hall⟩
      · exact Or.inl (hprogress.erased hash herased)
      · refine Or.inr ⟨i, before, hprogress.call hcall, hrefused, ?_⟩
        intro prev hmem hin
        exact hall prev (hdone hmem hin) hin

/-- The loop over `vWorkQueue` reads every transaction that enters the pool. -/
theorem adoptOrphans_spec (h : Indexed env m) {start : CTxMemPool} (n : ℕ) {done : List uint256}
    (hinv : Adopting env msg m start done a)
    (hn : a.vWorkQueue.length + (outside m a.pool).card ≤ n) :
    ∃ a' done', msg.adoptOrphans env n a (opened done m) = some (a', opened done' m) ∧
      Adopting env msg m start done' a' ∧ a'.vWorkQueue = [] ∧
      ∀ hash ∈ a.vEraseQueue, hash ∈ a'.vEraseQueue := by
  induction n generalizing done a with
  | zero =>
    have hempty : a.vWorkQueue = [] := eq_nil_of_length_eq_zero (by omega)
    exact ⟨a, done, rfl, hinv, hempty, fun _ hmem => hmem⟩
  | succ n ih =>
    unfold adoptOrphans
    cases hqueue : a.vWorkQueue with
    | nil => exact ⟨a, done, rfl, hinv, hqueue, fun _ hmem => hmem⟩
    | cons hashPrev vWorkQueue =>
      have hread : { opened done m with
            mapOrphanTransactionsByPrev :=
              (opened done m).mapOrphanTransactionsByPrev.touch hashPrev } =
          opened (done ++ [hashPrev]) m := by
        unfold opened
        rw [foldl_append]
        rfl
      have hmem (hash : uint256) (pvMsg : ℕ) : (hash, pvMsg) ∈ msg.order.visit n
            ((opened done m).mapOrphanTransactionsByPrev.inner hashPrev) ↔
          m.mapOrphanTransactionsByPrev.find hashPrev hash = some pvMsg := by
        rw [msg.order.mem_visit, ← find_eq_inner, opened,
          find_foldl_touch]
      obtain ⟨a1, new, hloop, hprogress, htried⟩ := @tryOrphans_spec env msg _
        (h.opened (done ++ [hashPrev])) _
        (fun item hitem => ((h.listed _ _ _).mp ((hmem item.1 item.2).mp hitem)).1)
        { a with vWorkQueue := vWorkQueue }
      have hprogress' : Progress m { a with vWorkQueue := vWorkQueue } a1 new :=
        ⟨hprogress.queued, hprogress.nodup, hprogress.stored, hprogress.fresh, hprogress.pool,
          hprogress.erased, hprogress.calls⟩
      have hinv1 := hinv.round h hqueue hprogress' fun hash pvMsg tx hfind htx =>
        htried (hash, pvMsg) ((hmem hash pvMsg).mpr hfind) tx htx
      have hcard := hprogress'.outside
      have hlength : a1.vWorkQueue.length = vWorkQueue.length + new.length := by
        rw [hprogress.queued, length_append]
      rw [hqueue, length_cons] at hn
      dsimp only at hcard
      obtain ⟨a2, done2, hrest, hinv2, hempty, herased⟩ := ih hinv1 (by omega)
      refine ⟨a2, done2, ?_, hinv2, hempty,
        fun hash hin => herased hash (hprogress.erased hash hin)⟩
      dsimp only
      rw [hread, hloop, Option.bind_some, hrest]

end Adopt

/-! ## Messages and evictions -/

/-- What changes the maps. -/
inductive OrphanEvent where
  | tx (msg : TxMessage)
  | limit (order : UnorderedMapOrder) (nMaxOrphans : ℕ)

def OrphanEvent.apply (env : ChainEnv) (m : OrphanTxMaps) : OrphanEvent → Option OrphanTxMaps
  | .tx msg => (msg.process env m).map Prod.snd
  | .limit order nMaxOrphans => m.LimitOrphanTxSize order nMaxOrphans

def Accepts (env : ChainEnv) (msg : TxMessage) (m : OrphanTxMaps) (hash : uint256) : Prop :=
  ∃ pool m', msg.process env m = some (pool, m') ∧ hash ∈ pool.mapTx ∧ hash ∉ msg.pool.mapTx

/-- The calls of `AcceptToMemoryPool` that a message with an accepted transaction makes. -/
def callsOf (env : ChainEnv) (msg : TxMessage) (m : OrphanTxMaps) :
    List (CTransaction × CTxMemPool) :=
  ((decodeTx msg.vRecv).bind fun tx =>
    (msg.adoption env tx (msg.acceptToMemoryPool env 0 tx msg.pool).2 m).map fun adopted =>
      adopted.1.calls).getD []

structure IndexExact (m : OrphanTxMaps) : Prop where
  listed : ∀ prev hash pvMsg, m.mapOrphanTransactionsByPrev.find prev hash = some pvMsg ↔
    m.mapOrphanTransactions.lookup hash = some pvMsg ∧
      ∃ tx, orphanTx hash m = some tx ∧ prev ∈ tx.parents
  noneEmpty : m.mapOrphanTransactionsByPrev.NoneEmpty
  count : m.mapOrphanTransactions.keys.card ≤ MAX_ORPHAN_TRANSACTIONS
  size : m.mapOrphanTransactionsByPrev.keys.card ≤
    ∑ hash ∈ m.mapOrphanTransactions.keys, (orphanTx hash m).elim 0 fun tx => tx.vin.length

/-- Every orphan that is left and has a parent that the message accepted was refused because of
missing inputs by a call that found all of its accepted parents in the pool. -/
def OrphansSettled (env : ChainEnv) (m : OrphanTxMaps) (event : OrphanEvent)
    (m' : OrphanTxMaps) : Prop :=
  ∀ msg, event = .tx msg → ∀ hash tx, orphanTx hash m' = some tx →
    (∃ prev ∈ tx.parents, Accepts env msg m prev) →
      ∃ i before, (callsOf env msg m)[i]? = some (tx, before) ∧ RefusedAt env msg tx i before ∧
        ∀ prev ∈ tx.parents, Accepts env msg m prev → prev ∈ before.mapTx

def SpentByOrphans (env : ChainEnv) (m : OrphanTxMaps) (event : OrphanEvent) : Prop :=
  ∀ msg, event = .tx msg → ∀ prev, Accepts env msg m prev →
    ∃ hash tx, orphanTx hash m = some tx ∧ prev ∈ tx.parents

section Events

variable {env : ChainEnv} {msg : TxMessage} {m : OrphanTxMaps}

theorem Indexed.spent_iff (h : Indexed env m) (prev : uint256) :
    (∃ hash tx, orphanTx hash m = some tx ∧ prev ∈ tx.parents) ↔
      ∃ hash pvMsg, m.mapOrphanTransactionsByPrev.find prev hash = some pvMsg := by
  constructor
  · intro hspent
    obtain ⟨hash, tx, htx, hprev⟩ := hspent
    obtain ⟨pvMsg, vMsg, hlookup, -⟩ := lookup_of_orphanTx htx
    exact ⟨hash, pvMsg, (h.listed prev hash pvMsg).mpr ⟨hlookup, tx, htx, hprev⟩⟩
  · intro hfind
    obtain ⟨hash, pvMsg, hfind⟩ := hfind
    obtain ⟨-, tx, htx, hprev⟩ := (h.listed prev hash pvMsg).mp hfind
    exact ⟨hash, tx, htx, hprev⟩

/-- An exact index has no more keys than the orphans have inputs. -/
theorem Indexed.size (h : Indexed env m) (hnone : m.mapOrphanTransactionsByPrev.NoneEmpty) :
    m.mapOrphanTransactionsByPrev.keys.card ≤
      ∑ hash ∈ m.mapOrphanTransactions.keys,
        (orphanTx hash m).elim 0 fun tx => tx.vin.length := by
  have hsub : m.mapOrphanTransactionsByPrev.keys ⊆ m.mapOrphanTransactions.keys.biUnion
      fun hash => (orphanTx hash m).elim ∅ fun tx => tx.parents.toFinset := by
    intro prev hmem
    obtain ⟨hash, pvMsg, hfind⟩ := hnone.exists_find (Finmap.mem_keys.mp hmem)
    obtain ⟨hlookup, tx, htx, hprev⟩ := (h.listed prev hash pvMsg).mp hfind
    apply Finset.mem_biUnion.mpr
    refine ⟨hash, Finmap.mem_keys.mpr (Finmap.mem_iff.mpr ⟨pvMsg, hlookup⟩), ?_⟩
    rw [htx]
    exact List.mem_toFinset.mpr hprev
  refine (Finset.card_le_card hsub).trans (Finset.card_biUnion_le.trans ?_)
  apply Finset.sum_le_sum
  intro hash _
  cases orphanTx hash m with
  | none => exact le_of_eq Finset.card_empty
  | some tx =>
    refine (toFinset_card_le tx.parents).trans (le_of_eq ?_)
    rw [parents, length_map]
    rfl

def Held (env : ChainEnv) (m : OrphanTxMaps) : Prop :=
  Indexed env m ∧ m.mapOrphanTransactions.keys.card ≤ MAX_ORPHAN_TRANSACTIONS

theorem Held.exact (h : Held env m) (hnone : m.mapOrphanTransactionsByPrev.NoneEmpty) :
    IndexExact m :=
  ⟨h.1.listed, hnone, h.2, h.1.size hnone⟩

/-- The branch for an accepted transaction. -/
theorem processOrphans_spec (h : Held env m) {tx : CTransaction} {pool : CTxMemPool}
    (hnew : env.txHash tx ∉ msg.pool.mapTx)
    (hpool : pool.mapTx = msg.pool.mapTx.insert (env.txHash tx) tx) :
    ∃ a done m', msg.adoption env tx pool m = some (a, opened done m) ∧
      msg.processOrphans env tx pool m = some (a.pool, m') ∧
      Adopting env msg m msg.pool done a ∧ a.vWorkQueue = [] ∧
      Erased env a.vEraseQueue (opened done m) m' := by
  have hstart : Adopting env msg m msg.pool []
      ⟨[env.txHash tx], [env.txHash tx], [(tx, msg.pool)], pool⟩ := by
    refine ⟨?_, ?_, ?_⟩
    · intro hash
      rw [hpool, Finmap.mem_insert, nil_append, mem_singleton, or_comm]
    · intro hash hmem
      rw [nil_append, mem_singleton] at hmem
      rw [hmem]
      exact hnew
    · intro hash orphan _ hparent
      obtain ⟨prev, hmem, -⟩ := hparent
      exact absurd hmem not_mem_nil
  have hfuel : 1 + (outside m pool).card ≤ m.mapOrphanTransactions.keys.card + 1 := by
    have hle : (outside m pool).card ≤ m.mapOrphanTransactions.keys.card :=
      Finset.card_filter_le _ _
    omega
  obtain ⟨a, done, hadopt, hinv, hempty, -⟩ := adoptOrphans_spec h.1 _ hstart hfuel
  obtain ⟨m', herase, herased⟩ := eraseQueue_spec (h.1.opened done) a.vEraseQueue
  have hadoption : msg.adoption env tx pool m = some (a, opened done m) := hadopt
  refine ⟨a, done, m', hadoption, ?_, hinv, hempty, herased⟩
  rw [TxMessage.processOrphans, hadoption, Option.bind_eq_bind, Option.bind_some]
  dsimp only
  rw [herase]
  rfl

/-- A message that puts nothing into the pool. -/
theorem not_accepts {m' : OrphanTxMaps} (hprocess : msg.process env m = some (msg.pool, m'))
    (hash : uint256) : ¬ Accepts env msg m hash := by
  intro haccepts
  obtain ⟨pool, m'', hsome, hmem, hnot⟩ := haccepts
  rw [hprocess] at hsome
  cases hsome
  exact hnot hmem

structure MessageKeeps (env : ChainEnv) (msg : TxMessage) (m m' : OrphanTxMaps) : Prop where
  held : Held env m'
  settled : OrphansSettled env m (.tx msg) m'
  noneEmpty : m.mapOrphanTransactionsByPrev.NoneEmpty →
    (m'.mapOrphanTransactionsByPrev.NoneEmpty ↔ SpentByOrphans env m (.tx msg))

theorem messageKeeps_of_not_accepts {m' : OrphanTxMaps}
    (hprocess : msg.process env m = some (msg.pool, m')) (hheld : Held env m')
    (hnone : m.mapOrphanTransactionsByPrev.NoneEmpty → m'.mapOrphanTransactionsByPrev.NoneEmpty) :
    MessageKeeps env msg m m' := by
  have hnot := not_accepts hprocess
  refine ⟨hheld, ?_, fun hbefore => ⟨fun _ => ?_, fun _ => hnone hbefore⟩⟩
  · rintro _ ⟨⟩ hash tx _ hparent
    obtain ⟨prev, -, haccepts⟩ := hparent
    exact absurd haccepts (hnot prev)
  · rintro _ ⟨⟩ prev haccepts
    exact absurd haccepts (hnot prev)

/-- A message with an accepted transaction. -/
theorem messageKeeps_of_accepted (h : Held env m) {tx : CTransaction} {pool : CTxMemPool}
    {result : AcceptResult} (hdecode : decodeTx msg.vRecv = some tx)
    (hresult : msg.acceptToMemoryPool env 0 tx msg.pool = (result, pool))
    (haccepted : result.fAccepted = true) (hnew : env.txHash tx ∉ msg.pool.mapTx)
    (hpool : pool.mapTx = msg.pool.mapTx.insert (env.txHash tx) tx) :
    ∃ pool' m', msg.process env m = some (pool', m') ∧ MessageKeeps env msg m m' := by
  obtain ⟨a, done, m', hadoption, hprocessed, hinv, hempty, herased⟩ :=
    @processOrphans_spec env msg m h tx pool hnew hpool
  have hprocess : msg.process env m = some (a.pool, m') := by
    rw [process, hdecode]
    dsimp only
    rw [hresult]
    rw [if_pos haccepted, hprocessed]
  have haccepts (hash : uint256) : Accepts env msg m hash ↔ hash ∈ done := by
    constructor
    · intro haccepts
      obtain ⟨pool', m'', hsome, hmem, hnot⟩ := haccepts
      rw [hprocess] at hsome
      cases hsome
      have hqueued := ((hinv.entered hash).mp hmem).resolve_left hnot
      rwa [hempty, append_nil] at hqueued
    · intro hdone
      have hqueued : hash ∈ done ++ a.vWorkQueue := mem_append_left _ hdone
      exact ⟨a.pool, m', hprocess, (hinv.entered hash).mpr (Or.inr hqueued),
        hinv.fresh hash hqueued⟩
  have hcalls : callsOf env msg m = a.calls := by
    rw [callsOf, hdecode, Option.bind_some, hresult, hadoption]
    rfl
  refine ⟨a.pool, m', hprocess, ⟨herased.indexed, herased.card_le.trans h.2⟩, ?_, ?_⟩
  · rintro _ ⟨⟩ hash orphan horphan hparent
    obtain ⟨pvMsg, vMsg, hlookup, -⟩ := lookup_of_orphanTx horphan
    have hkept : hash ∉ a.vEraseQueue := by
      intro hmem
      rw [herased.lookup hash, if_pos hmem] at hlookup
      cases hlookup
    rw [herased.orphan hash hkept] at horphan
    obtain ⟨prev, hprev, hin⟩ := hparent
    rcases hinv.settled hash orphan horphan ⟨prev, (haccepts prev).mp hin, hprev⟩ with
      hmem | ⟨i, before, hcall, hrefused, hall⟩
    · exact absurd hmem hkept
    · refine ⟨i, before, hcalls ▸ hcall, hrefused, ?_⟩
      intro prev hprev hin
      exact hall prev ((haccepts prev).mp hin) hprev
  · intro hnone
    constructor
    · rintro hafter _ ⟨⟩ prev hin
      apply (h.1.spent_iff prev).mpr
      by_contra hunspent
      -- The subscript of a transaction without orphans made an entry that no erasure finds.
      have hfind (hash : uint256) : m.mapOrphanTransactionsByPrev.find prev hash = none := by
        apply Option.eq_none_iff_forall_ne_some.mpr
        intro pvMsg hsome
        exact hunspent ⟨hash, pvMsg, hsome⟩
      have hnot : prev ∉ m.mapOrphanTransactionsByPrev := by
        intro hmem
        exact hunspent (hnone.exists_find hmem)
      have hunread := herased.unspent prev fun hash => by
        rw [opened, find_foldl_touch]
        exact hfind hash
      have hopened : (opened done m).mapOrphanTransactionsByPrev.lookup prev = some ∅ :=
        lookup_foldl_touch_of_notMem ((haccepts prev).mp hin) hnot
      exact hafter prev (hunread.trans hopened)
    · intro hspent
      apply herased.noneEmpty
      have hsame : (opened done m).mapOrphanTransactionsByPrev = m.mapOrphanTransactionsByPrev := by
        apply foldl_touch_of_mem
        intro prev hdone
        obtain ⟨hash, pvMsg, hfind⟩ :=
          (h.1.spent_iff prev).mp (hspent msg rfl prev ((haccepts prev).mpr hdone))
        exact mem_of_find hfind
      rw [hsame]
      exact hnone

theorem process_spec (h : Held env m) (msg : TxMessage) :
    ∃ pool' m', msg.process env m = some (pool', m') ∧ MessageKeeps env msg m m' := by
  cases hdecode : decodeTx msg.vRecv with
  | none =>
    have hprocess : msg.process env m = some (msg.pool, m) := by
      rw [process, hdecode]
    exact ⟨msg.pool, m, hprocess, messageKeeps_of_not_accepts hprocess h fun hnone => hnone⟩
  | some tx =>
    cases hresult : msg.acceptToMemoryPool env 0 tx msg.pool with
    | mk result pool =>
      have hcases := acceptToMemoryPool_cases env msg 0 tx msg.pool
      rw [hresult] at hcases
      rcases hcases with ⟨haccepted, hnew, hpool⟩ | ⟨hrefused, rfl⟩
      · exact messageKeeps_of_accepted h hdecode hresult haccepted hnew hpool
      · have hprocess : msg.process env m =
            if result.fMissingInputs then
              (msg.storeOrphan env (if (codec.size tx).toNat < msg.vRecv.length then
                msg.vRecv.take (codec.size tx).toNat else msg.vRecv) m).map
                  fun m => (msg.pool, m)
            else some (msg.pool, m) := by
          rw [process, hdecode]
          dsimp only
          rw [hresult]
          rw [if_neg (Bool.eq_false_iff.mp hrefused)]
        generalize (if (codec.size tx).toNat < msg.vRecv.length then
          msg.vRecv.take (codec.size tx).toNat else msg.vRecv) = vMsg at hprocess
        by_cases hmissing : result.fMissingInputs = true
        · rw [if_pos hmissing] at hprocess
          unfold storeOrphan at hprocess
          cases hadd : m.AddOrphanTx env vMsg with
          | none =>
            rw [hadd] at hprocess
            exact ⟨msg.pool, m, hprocess, messageKeeps_of_not_accepts hprocess h fun hnone => hnone⟩
          | some added =>
            obtain ⟨m2, hashes, hlimit, herased, hle⟩ := LimitOrphanTxSize_spec
              (h.1.addOrphanTx hadd) msg.order MAX_ORPHAN_TRANSACTIONS
            rw [hadd] at hprocess
            dsimp only at hprocess
            rw [hlimit] at hprocess
            refine ⟨msg.pool, m2, hprocess,
              messageKeeps_of_not_accepts hprocess ⟨herased.indexed, hle⟩ ?_⟩
            intro hnone
            exact herased.noneEmpty (noneEmpty_addOrphanTx hnone hadd)
        · rw [if_neg hmissing] at hprocess
          exact ⟨msg.pool, m, hprocess, messageKeeps_of_not_accepts hprocess h fun hnone => hnone⟩

theorem apply_spec (h : Held env m) (event : OrphanEvent) :
    ∃ m', event.apply env m = some m' ∧ Held env m' ∧ OrphansSettled env m event m' ∧
      (m.mapOrphanTransactionsByPrev.NoneEmpty →
        (m'.mapOrphanTransactionsByPrev.NoneEmpty ↔ SpentByOrphans env m event)) := by
  cases event with
  | tx msg =>
    obtain ⟨pool', m', hprocess, hkeeps⟩ := process_spec h msg
    refine ⟨m', ?_, hkeeps.held, hkeeps.settled, hkeeps.noneEmpty⟩
    rw [OrphanEvent.apply, hprocess]
    rfl
  | limit order nMaxOrphans =>
    obtain ⟨m', hashes, hlimit, herased, -⟩ := LimitOrphanTxSize_spec h.1 order nMaxOrphans
    refine ⟨m', hlimit, ⟨herased.indexed, herased.card_le.trans h.2⟩, ?_, ?_⟩
    · rintro _ ⟨⟩
    · intro hnone
      refine ⟨?_, fun _ => herased.noneEmpty hnone⟩
      rintro _ _ ⟨⟩

end Events

/-- Every state of a run from the start of the node has an exact index, and every message settles
the orphans of the transactions that it accepts. -/
def KeepsIndex (env : ChainEnv) (events : List OrphanEvent) : Prop :=
  ∀ before event after, events = before ++ event :: after →
    ∃ m m', before.foldlM (OrphanEvent.apply env) .empty = some m ∧
      event.apply env m = some m' ∧ IndexExact m' ∧ OrphansSettled env m event m'

/-- A run keeps the index exact if and only if each of its messages accepts none but parents of
stored orphans. -/
theorem keepsIndex_iff (env : ChainEnv) (events : List OrphanEvent) :
    KeepsIndex env events ↔
      ∀ before event after, events = before ++ event :: after →
        ∀ m, before.foldlM (OrphanEvent.apply env) .empty = some m →
          SpentByOrphans env m event := by
  have hstart : Held env .empty := by
    refine ⟨indexed_empty env, ?_⟩
    rw [show empty.mapOrphanTransactions.keys = ∅ from Finmap.keys_empty]
    exact Nat.zero_le _
  refine @foldlM_good_iff OrphanTxMaps OrphanEvent (OrphanEvent.apply env) (Held env) IndexExact
    (SpentByOrphans env) (OrphansSettled env) ?_ events .empty hstart
    (hstart.exact noneEmpty_empty)
  intro m event hheld
  obtain ⟨m', happly, hheld', hsettled, hnone⟩ := apply_spec hheld event
  refine ⟨m', happly, hheld', hsettled, ?_⟩
  intro hexact
  rw [← hnone hexact.noneEmpty]
  exact ⟨IndexExact.noneEmpty, hheld'.exact⟩

namespace OrphanTxExample

def sortedOrder : UnorderedMapOrder where
  visit _ t := t.sortedKeys.filterMap fun hash => (t.lookup hash).map fun pvMsg => (hash, pvMsg)
  mem_visit _ t hash pvMsg := by
    simp only [mem_filterMap, Option.map_eq_some_iff, Prod.mk.injEq]
    constructor
    · rintro ⟨hash', -, pvMsg', hlookup, rfl, rfl⟩
      exact hlookup
    · intro hlookup
      refine ⟨hash, Table.mem_sortedKeys.mpr ?_, pvMsg, hlookup, rfl, rfl⟩
      rw [hlookup]
      rfl
  nodup_visit _ t := by
    have hfst : ((t.sortedKeys.filterMap fun hash => (t.lookup hash).map fun pvMsg =>
        (hash, pvMsg)).map Prod.fst).Sublist t.sortedKeys := by
      generalize t.sortedKeys = keys
      induction keys with
      | nil => exact List.Sublist.slnil
      | cons hash keys ih =>
        cases hlookup : t.lookup hash with
        | none =>
          rw [filterMap_cons, hlookup, Option.map_none]
          exact ih.cons hash
        | some pvMsg =>
          rw [filterMap_cons, hlookup, Option.map_some]
          exact ih.cons_cons hash
    exact hfst.nodup (Table.nodup_sortedKeys t)
  pick _ t := t.sortedKeys.headD 0
  pick_mem _ t hne := by
    obtain ⟨hash, hmem⟩ := Table.exists_mem_of_ne_empty hne
    have hkeys : hash ∈ t.sortedKeys :=
      Table.mem_sortedKeys.mpr (Finmap.lookup_isSome.mpr hmem)
    cases hsorted : t.sortedKeys with
    | nil => rw [hsorted] at hkeys; cases hkeys
    | cons first rest =>
      apply Finmap.lookup_isSome.mp
      apply Table.mem_sortedKeys.mp
      rw [hsorted]
      exact mem_cons_self

/-- A node without orphans receives a transaction that spends one of its pool. -/
def unspentMessage : TxMessage where
  vRecv := codec.write (PoolExample.spending 2 5)
  txdb := ⟨⟨∅, ∅, none, none⟩, none⟩
  pool := CTxMemPool.empty.addUnchecked 2 (PoolExample.spending 90 1)
  context _ := PoolExample.poolContext
  order := sortedOrder

end OrphanTxExample

open OrphanTxExample PoolExample in
/-- The accepted transaction 6, which no orphan spends, gets an entry that nothing removes. -/
theorem keepsIndex_unspentMessage :
    (OrphanEvent.apply poolEnv .empty (.tx unspentMessage)).map (fun m =>
        (m.mapOrphanTransactions.keys, m.mapOrphanTransactionsByPrev.lookup 6)) =
      some (∅, some ∅) ∧ ¬ KeepsIndex poolEnv [.tx unspentMessage] := by
  have hentry : (OrphanEvent.apply poolEnv .empty (.tx unspentMessage)).map (fun m =>
      (m.mapOrphanTransactions.keys, m.mapOrphanTransactionsByPrev.lookup 6)) =
        some (∅, some ∅) := by decide
  refine ⟨hentry, ?_⟩
  intro hkeeps
  obtain ⟨m, m', hm, hm', hexact, -⟩ := hkeeps [] _ [] rfl
  cases hm
  rw [hm', Option.map_some] at hentry
  exact hexact.noneEmpty 6 (congrArg Prod.snd (Option.some.inj hentry))

end Phoenixcoin.Analysis
