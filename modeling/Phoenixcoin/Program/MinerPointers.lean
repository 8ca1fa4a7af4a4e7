import Phoenixcoin.Program.Miner

/-!
# The pointers of the miner

How `CreateNewBlock` keeps the transactions that wait for others of the memory pool: `vOrphan` owns
the records, and `mapDependers` holds pointers to them. What a round does apart from these is as in
`gatherTx` and `collectTx`.
-/

set_option autoImplicit false

namespace Phoenixcoin.Program

open Lib

/-- A pointer in `mapDependers`, with the transaction that listed the dependency. -/
structure Depender where
  porphan : ℕ
  ptx : CTransaction

/-- `vOrphan` by addresses, and `mapDependers`. The address of a record that is gone is not used
again. -/
structure OrphanRecords where
  vOrphan : Table ℕ COrphan
  nAddress : ℕ
  mapDependers : uint256 → List Depender

namespace OrphanRecords

def empty : OrphanRecords := ⟨∅, 0, fun _ => []⟩

variable (records : OrphanRecords)

/-- `vOrphan.push_back(COrphan(&tx))`. -/
def pushBack (tx : CTransaction) : OrphanRecords :=
  { records with
    vOrphan := records.vOrphan.insert records.nAddress ⟨⟨0, 0, tx, 0, 0⟩, ∅⟩
    nAddress := records.nAddress + 1 }

/-- A change of the record at an address. -/
def modify (porphan : ℕ) (f : COrphan → COrphan) : OrphanRecords :=
  { records with
    vOrphan := (records.vOrphan.lookup porphan).elim records.vOrphan fun orphan =>
      records.vOrphan.insert porphan (f orphan) }

/-- A dependency of the transaction of a record. -/
def addDependency (tx : CTransaction) (porphan : ℕ) (hash : uint256) : OrphanRecords :=
  { records.modify porphan fun orphan =>
      { orphan with setDependsOn := insert hash orphan.setDependsOn } with
    mapDependers :=
      Function.update records.mapDependers hash (records.mapDependers hash ++ [⟨porphan, tx⟩]) }

/-- `vOrphan.pop_back()`; the last record is that of the transaction in hand. -/
def popBack (porphan : ℕ) : OrphanRecords :=
  { records with vOrphan := records.vOrphan.erase porphan }

end OrphanRecords

section Pointers

variable (env : ChainEnv) (args : MinerArgs) (o : MinerOutcome) (s : ChainState) (txdb : CTxDB)

/-! ## Gathering -/

/-- The variables of the loop over the inputs of a transaction. -/
structure InputLoop where
  records : OrphanRecords
  porphan : Option ℕ
  totals : InputTotals

/-- One round of the loop over the inputs. After a missing input the record is dropped, and the
pointers to it stay. -/
def inputRound (tx : CTransaction) (l : InputLoop) (txin : CTxIn) :
    Except OrphanRecords InputLoop :=
  match addInput env o s txdb (env.txHash tx) l.totals txin with
  | none => .error (l.porphan.elim l.records l.records.popBack)
  | some totals =>
    match o.mapTx.find? fun tx => env.txHash tx = txin.prevout.hash with
    | none => .ok { l with totals := totals }
    | some _ =>
      match l.porphan with
      | some porphan =>
        .ok ⟨l.records.addDependency tx porphan txin.prevout.hash, some porphan, totals⟩
      | none =>
        let porphan := l.records.nAddress
        .ok ⟨(l.records.pushBack tx).addDependency tx porphan txin.prevout.hash, some porphan,
          totals⟩

/-- The transactions that are looked at. -/
def isConsidered (tx : CTransaction) : Prop :=
  ¬ tx.IsCoinBase ∧ tx.IsFinal s.nBestHeight (o.nSelectTime (env.txHash tx)) 0 0

instance (tx : CTransaction) : Decidable (isConsidered env o s tx) :=
  inferInstanceAs (Decidable (_ ∧ _))

/-- One round of the loop over the memory pool. -/
def gatherRound (state : OrphanRecords × List TxPriority) (tx : CTransaction) :
    Option (OrphanRecords × List TxPriority) :=
  if ¬ isConsidered env o s tx then some state
  else
    match tx.vin.foldlM (inputRound env o s txdb tx) ⟨state.1, none, ⟨∅, 0, 0⟩⟩ with
    | .error records => some (records, state.2)
    | .ok l => do
      let nTxSize := tx.getSerializeSize
      let nValueOut ← tx.getValueOut
      let dFeePerKb :=
        Float.ofInt (l.totals.nTotalIn - nValueOut) / (Float.ofNat nTxSize / 1000.0)
      let entry : TxPriority :=
        ⟨l.totals.dPriority / Float.ofNat nTxSize, dFeePerKb, tx, nTxSize, nValueOut⟩
      match l.porphan with
      | none => return (l.records, state.2 ++ [entry])
      | some porphan =>
        return (l.records.modify porphan fun orphan =>
          { entry with tx := orphan.tx, setDependsOn := orphan.setDependsOn }, state.2)

/-! ## Collecting -/

/-- The variables of the loop that collects transactions, where `vOrphan` of `collected` is not
used, and the transactions that have entered the queue. -/
structure PointerState where
  records : OrphanRecords
  collected : CollectState
  queued : List CTransaction

/-- A pointer is followed after `hash` has been added; none is a pointer to a record that is
gone. -/
def followPointer (hash : uint256) (state : OrphanRecords × List TxPriority) (d : Depender) :
    Option (OrphanRecords × List TxPriority) :=
  (state.1.vOrphan.lookup d.porphan).map fun porphan =>
    if porphan.setDependsOn = ∅ then state
    else
      let setDependsOn := porphan.setDependsOn.erase hash
      ({ state.1 with
          vOrphan := state.1.vOrphan.insert d.porphan
            { porphan with setDependsOn := setDependsOn } },
        if setDependsOn = ∅ then state.2 ++ [porphan.toTxPriority] else state.2)

variable (pindexPrev : CBlockIndex)

/-- What the next round takes from the queue, and what is collected after it. -/
def takeFromQueue (collected : CollectState) :
    Option (TxPriority × CollectState) :=
  match collected.vecPriority with
  | [] => none
  | first :: rest =>
    let popped := popHeap collected.fSortedByFee first rest
    (collectTx env args o s txdb pindexPrev popped.1 { collected with vecPriority := popped.2 }).map
      fun collected => (popped.1, collected)

/-- The transaction that the next round adds to the block. -/
def addedNext (collected : CollectState) : Option CTransaction :=
  (takeFromQueue env args o s txdb pindexPrev collected).bind fun next =>
    if next.2.vtx.length = collected.vtx.length then none else some next.1.tx

/-- One round of the loop that collects transactions; none is an exception, a pointer to a record
that is gone, or an empty queue. -/
def collectRound (state : PointerState) : Option PointerState := do
  let next ← takeFromQueue env args o s txdb pindexPrev state.collected
  match addedNext env args o s txdb pindexPrev state.collected with
  | none => return { state with collected := next.2 }
  | some tx =>
    let hash := env.txHash tx
    let (records, released) ←
      (state.records.mapDependers hash).foldlM (followPointer hash) (state.records, [])
    return {
      records := records
      collected := { next.2 with vecPriority := next.2.vecPriority ++ released }
      queued := state.queued ++ released.map TxPriority.tx }

/-- The state after so many rounds. -/
def collectRounds (pindexPrev : CBlockIndex) : ℕ → Option PointerState
  | 0 => do
    let (records, vecPriority) ← o.mapTx.foldlM (gatherRound env o s txdb) (.empty, [])
    return {
      records := records
      collected :=
        { vOrphan := []
          vecPriority := vecPriority
          fSortedByFee := args.prioritySize = 0 }
      queued := vecPriority.map TxPriority.tx }
  | n + 1 => (collectRounds pindexPrev n).bind (collectRound env args o s txdb pindexPrev)

end Pointers

end Phoenixcoin.Program
