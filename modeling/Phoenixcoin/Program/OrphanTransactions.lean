import Mathlib.Order.Lattice.Nat
import Phoenixcoin.Lib.InvertedIndex
import Phoenixcoin.Program.Mempool

/-!
# Transactions without their parents

`AddOrphanTx`, `EraseOrphanTx`, `LimitOrphanTxSize` and the message `tx` of `main.cpp`. A stored
message is an object that both maps point to. A call that follows a pointer to a deleted object
has no result.
-/

set_option autoImplicit false

namespace Phoenixcoin.Program

open Lib

def MAX_ORPHAN_TRANSACTIONS : ℕ := MAX_BLOCK_SIZE >>> 8

/-- `CDataStream(vMsg) >> tx`; `none` is an exception. -/
def decodeTx (vMsg : List UInt8) : Option CTransaction :=
  (unserialize CTransaction.codec (.ofBytes vMsg)).map Prod.fst

/-- The ids of the transactions that a transaction spends. -/
def CTransaction.parents (tx : CTransaction) : List uint256 :=
  tx.vin.map fun txin => txin.prevout.hash

/-- `mapOrphanTransactions` and `mapOrphanTransactionsByPrev`, and the streams by their address. -/
structure OrphanTxMaps where
  heap : Table ℕ (List UInt8)
  mapOrphanTransactions : Table uint256 ℕ
  mapOrphanTransactionsByPrev : InvertedIndex uint256 uint256 ℕ

/-- The order in which a loop finds the entries of an `std::unordered_map`, which may be another
one each time, and the entry that `GetRand` picks. -/
structure UnorderedMapOrder where
  visit : ℕ → Table uint256 ℕ → List (uint256 × ℕ)
  mem_visit : ∀ i t hash pvMsg, (hash, pvMsg) ∈ visit i t ↔ t.lookup hash = some pvMsg
  nodup_visit : ∀ i t, ((visit i t).map Prod.fst).Nodup
  pick : ℕ → Table uint256 ℕ → uint256
  pick_mem : ∀ i t, t ≠ ∅ → pick i t ∈ t

namespace OrphanTxMaps

def empty : OrphanTxMaps := ⟨∅, ∅, ∅⟩

variable (env : ChainEnv)

def AddOrphanTx (vMsg : List UInt8) (m : OrphanTxMaps) : Option (Bool × OrphanTxMaps) := do
  let tx ← decodeTx vMsg
  let hash := env.txHash tx
  if hash ∈ m.mapOrphanTransactions then return (false, m)
  if vMsg.length > 5000 then return (false, m)
  let pvMsg := m.heap.keys.sup id + 1
  return (true,
    { heap := m.heap.insert pvMsg vMsg
      mapOrphanTransactions := m.mapOrphanTransactions.insert hash pvMsg
      mapOrphanTransactionsByPrev :=
        tx.parents.foldl (InvertedIndex.put hash pvMsg) m.mapOrphanTransactionsByPrev })

def EraseOrphanTx (hash : uint256) (m : OrphanTxMaps) : Option OrphanTxMaps :=
  match m.mapOrphanTransactions.lookup hash with
  | none => some m
  | some pvMsg => do
    let vMsg ← m.heap.lookup pvMsg
    let tx ← decodeTx vMsg
    return {
      heap := m.heap.erase pvMsg
      mapOrphanTransactions := m.mapOrphanTransactions.erase hash
      mapOrphanTransactionsByPrev :=
        tx.parents.foldl (InvertedIndex.remove hash) m.mapOrphanTransactionsByPrev }

/-- The loop of `LimitOrphanTxSize`; each round erases one orphan. -/
def limitOrphans (order : UnorderedMapOrder) (nMaxOrphans : ℕ) :
    ℕ → OrphanTxMaps → Option OrphanTxMaps
  | 0, m => some m
  | n + 1, m =>
    if m.mapOrphanTransactions.keys.card > nMaxOrphans then
      (m.EraseOrphanTx (order.pick n m.mapOrphanTransactions)).bind
        (limitOrphans order nMaxOrphans n)
    else some m

def LimitOrphanTxSize (order : UnorderedMapOrder) (nMaxOrphans : ℕ) (m : OrphanTxMaps) :
    Option OrphanTxMaps :=
  m.limitOrphans order nMaxOrphans m.mapOrphanTransactions.keys.card

end OrphanTxMaps

/-! ## The message tx -/

/-- A message `tx`: its bytes, the node when it arrives, and what each call of
`AcceptToMemoryPool` finds. -/
structure TxMessage where
  vRecv : List UInt8
  txdb : CTxDB
  pool : CTxMemPool
  context : ℕ → PoolContext
  order : UnorderedMapOrder

/-- The loop over the orphans of an accepted transaction: `vWorkQueue` has the hashes that are
still to be read, and `calls` what `AcceptToMemoryPool` was called with so far. -/
structure Adoption where
  vWorkQueue : List uint256
  vEraseQueue : List uint256
  calls : List (CTransaction × CTxMemPool)
  pool : CTxMemPool

namespace TxMessage

variable (env : ChainEnv) (msg : TxMessage)

/-- `AcceptToMemoryPool(txdb, true, &fMissingInputs)`, the call number `i` of the message. -/
def acceptToMemoryPool (i : ℕ) (tx : CTransaction) (pool : CTxMemPool) :
    AcceptResult × CTxMemPool :=
  pool.accept env (msg.context i) msg.txdb tx true

/-- The body of the inner loop. -/
def tryOrphan (m : OrphanTxMaps) (a : Adoption) (orphan : uint256 × ℕ) :
    Option Adoption := do
  let vMsg ← m.heap.lookup orphan.2
  let tx ← decodeTx vMsg
  let hash := env.txHash tx
  let (result, pool) := msg.acceptToMemoryPool env a.calls.length tx a.pool
  let a := { a with calls := a.calls ++ [(tx, a.pool)], pool := pool }
  return if result.fAccepted then
      { a with vWorkQueue := a.vWorkQueue ++ [hash], vEraseQueue := a.vEraseQueue ++ [hash] }
    else if ¬ result.fMissingInputs then { a with vEraseQueue := a.vEraseQueue ++ [hash] }
    else a

/-- The loop over `vWorkQueue`. It reads `mapOrphanTransactionsByPrev` with a subscript. -/
def adoptOrphans (msg : TxMessage) : ℕ → Adoption → OrphanTxMaps → Option (Adoption × OrphanTxMaps)
  | 0, a, m => some (a, m)
  | n + 1, a, m =>
    match a.vWorkQueue with
    | [] => some (a, m)
    | hashPrev :: vWorkQueue =>
      let byPrev := m.mapOrphanTransactionsByPrev
      let m := { m with mapOrphanTransactionsByPrev := byPrev.touch hashPrev }
      ((msg.order.visit n (byPrev.inner hashPrev)).foldlM (msg.tryOrphan env m)
        { a with vWorkQueue := vWorkQueue }).bind fun a => adoptOrphans msg n a m

/-- The two loops for an accepted transaction, and the pool that it is in. A transaction is queued
when it enters the pool, so no orphan is queued twice. -/
def adoption (tx : CTransaction) (pool : CTxMemPool) (m : OrphanTxMaps) :
    Option (Adoption × OrphanTxMaps) :=
  msg.adoptOrphans env (m.mapOrphanTransactions.keys.card + 1)
    ⟨[env.txHash tx], [env.txHash tx], [(tx, msg.pool)], pool⟩ m

/-- The branch for an accepted transaction. -/
def processOrphans (tx : CTransaction) (pool : CTxMemPool) (m : OrphanTxMaps) :
    Option (CTxMemPool × OrphanTxMaps) := do
  let (a, m) ← msg.adoption env tx pool m
  let m ← a.vEraseQueue.foldlM (fun m hash => m.EraseOrphanTx hash) m
  return (a.pool, m)

/-- The branch for a transaction with missing inputs. An exception leaves the maps as they are. -/
def storeOrphan (vMsg : List UInt8) (m : OrphanTxMaps) : Option OrphanTxMaps :=
  match m.AddOrphanTx env vMsg with
  | none => some m
  | some (_, m) => m.LimitOrphanTxSize msg.order MAX_ORPHAN_TRANSACTIONS

/-- `ProcessMessage` for `tx`: the pool and the maps afterwards. -/
def process (m : OrphanTxMaps) : Option (CTxMemPool × OrphanTxMaps) :=
  match decodeTx msg.vRecv with
  | none => some (msg.pool, m)
  | some tx =>
    let nSize := (CTransaction.codec.size tx).toNat
    let vMsg := if nSize < msg.vRecv.length then msg.vRecv.take nSize else msg.vRecv
    let (result, pool) := msg.acceptToMemoryPool env 0 tx msg.pool
    if result.fAccepted then msg.processOrphans env tx pool m
    else if result.fMissingInputs then (msg.storeOrphan env vMsg m).map fun m => (pool, m)
    else some (pool, m)

end TxMessage

end Phoenixcoin.Program
