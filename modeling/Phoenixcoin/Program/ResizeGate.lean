import Phoenixcoin.Lib.Process
import Phoenixcoin.Program.LmdbTransaction

/-!
# The resize gate

The locking side of `CLMDBEnv` and `CLMDBTransaction` (`lmdbdb.cpp`, `lmdb_kv.cpp`): leases, the
writer slot and `GrowMap`, as programs whose actions threads perform in any order. An action under
`mutexTxns` is one step; what LMDB answers is open.
-/

set_option autoImplicit false

namespace Phoenixcoin.Program.Gate

open Lib

/-! ## The actions -/

/-- What the threads share. `fResizing` says that a call of `GrowMap` keeps `mutexTxns` after its
wait. -/
structure CLMDBEnv where
  nActiveTxns : ℕ := 0
  fResizePending : Bool := false
  fWriterActive : Bool := false
  fResizing : Bool := false

inductive Action where
  | acquireTransactionLease
  | releaseTransactionLease
  | tryAcquireWriter
  | releaseWriter
  /-- `GrowMap` up to its wait: the answer says whether its checks pass. -/
  | growBegin
  /-- The end of the wait of `GrowMap`. -/
  | growDrained
  /-- `GrowMap` under `mutexEnv`: the answer says whether the map has grown. -/
  | setMapsize
  | growEnd
  | getEnv
  | txnBegin
  | txnCommit
  | txnAbort
  | call (m : Mutation)

abbrev Action.Answer : Action → Type
  | tryAcquireWriter => Bool
  | growBegin => Bool
  | setMapsize => Bool
  | getEnv => Bool
  | txnBegin => Bool
  | txnCommit => MdbCode
  | call _ => MdbCode
  | _ => Unit

/-- The effect of an action on what is shared; `none` while the thread has to wait, and for an
answer that the state excludes. -/
def CLMDBEnv.perform (env : CLMDBEnv) : (x : Action) → x.Answer → Option CLMDBEnv
  | .acquireTransactionLease, _ =>
    if env.fResizing ∨ env.fResizePending then none
    else some { env with nActiveTxns := env.nActiveTxns + 1 }
  | .releaseTransactionLease, _ =>
    if env.fResizing then none
    else some { env with nActiveTxns := if env.nActiveTxns > 0 then env.nActiveTxns - 1 else 0 }
  | .tryAcquireWriter, fAcquired =>
    if fAcquired = !env.fWriterActive then some { env with fWriterActive := true } else none
  | .releaseWriter, _ => some { env with fWriterActive := false }
  | .growBegin, fPassed =>
    if env.fResizing then none
    else some (if fPassed then { env with fResizePending := true } else env)
  | .growDrained, _ =>
    if env.fResizing ∨ env.nActiveTxns ≠ 0 then none else some { env with fResizing := true }
  | .growEnd, _ => some { env with fResizePending := false, fResizing := false }
  | _, _ => some env

abbrev GateProgram : Type → Type 1 := Prog Action Action.Answer

def perform (x : Action) : GateProgram x.Answer := Prog.perform x

def growMap : GateProgram Bool := do
  if ¬ (← perform .growBegin) then return false
  perform .growDrained
  let fGrown ← perform .setMapsize
  perform .growEnd
  return fGrown

/-! ## Transactions -/

/-- The transaction object; `txn` says that it has a transaction of LMDB. -/
structure CLMDBTransaction where
  txn : Bool
  fReadOnly : Bool
  fAborted : Bool := false
  fCommitted : Bool := false
  fWriterHeld : Bool
  fLeaseHeld : Bool
  nActiveIterators : ℕ := 0
  mutations : List Mutation := []

namespace CLMDBTransaction

variable (s : CLMDBTransaction)

def releaseWriter : GateProgram CLMDBTransaction := do
  if s.fWriterHeld then
    perform .releaseWriter
    return { s with fWriterHeld := false }
  return s

def releaseLease : GateProgram CLMDBTransaction := do
  if s.fLeaseHeld then
    perform .releaseTransactionLease
    return { s with fLeaseHeld := false }
  return s

/-- `ClearMutations`, `ReleaseWriter` and `ReleaseLease`, the last steps of a transaction. -/
def release : GateProgram CLMDBTransaction := do
  let s ← releaseWriter { s with mutations := [] }
  s.releaseLease

/-- `mdb_txn_abort`, if there is a transaction. -/
def abortTxn : GateProgram CLMDBTransaction := do
  if s.txn then
    perform .txnAbort
    return { s with txn := false }
  return s

/-- `RecordWrite` and `RecordErase`. -/
def record (m : Mutation) : CLMDBTransaction :=
  if s.fReadOnly then s else { s with mutations := s.mutations ++ [m] }

/-- The loop of `ReplayMutations`. -/
def replayMutations : List Mutation → GateProgram MdbCode
  | [] => return .success
  | m :: mutations => do
    let ret ← perform (.call m)
    if m.applied ret then replayMutations mutations else return ret

/-- One round of `RecoverFromMapFull`: the next state, or what it returns. -/
def recoverRound :
    GateProgram (CLMDBTransaction ⊕ (Bool × CLMDBTransaction)) := do
  let s ← s.abortTxn
  let s ← s.releaseLease
  if ¬ (← growMap) then return .inr (false, s)
  perform .acquireTransactionLease
  let s := { s with fLeaseHeld := true }
  if ¬ (← perform .txnBegin) then
    let s ← s.releaseLease
    return .inr (false, s)
  let s := { s with txn := true }
  let ret ← replayMutations s.mutations
  if ret = .success then return .inr (true, s)
  if ret = .mapFull then return .inl s
  let s ← s.abortTxn
  let s ← s.releaseLease
  return .inr (false, s)

def recoverFromMapFull : GateProgram (Bool × CLMDBTransaction) := do
  if s.fReadOnly then return (false, s)
  if ¬ (← perform .getEnv) then return (false, s)
  if ¬ s.fWriterHeld then return (false, s)
  if s.nActiveIterators > 0 then return (false, s)
  Prog.repeatUntil s recoverRound

/-- One round of `Write` and `Erase`. -/
def mutateRound (m : Mutation) (s : CLMDBTransaction) :
    GateProgram (CLMDBTransaction ⊕ (Bool × CLMDBTransaction)) := do
  let ret ← perform (.call m)
  if m.applied ret then return .inr (true, s.record m)
  if ret ≠ .mapFull then return .inr (false, s)
  let (fRecovered, s) ← s.recoverFromMapFull
  if fRecovered then return .inl s else return .inr (false, s)

/-- `Write` and `Erase`. -/
def mutate (m : Mutation) (s : CLMDBTransaction) : GateProgram (Bool × CLMDBTransaction) :=
  if ¬ s.txn ∨ s.fReadOnly then return (false, s) else Prog.repeatUntil s (mutateRound m)

/-- One round of `Commit` after a commit that ended with `ret`. -/
def commitRound (state : MdbCode × CLMDBTransaction) :
    GateProgram ((MdbCode × CLMDBTransaction) ⊕ (MdbCode × CLMDBTransaction)) := do
  let (ret, s) := state
  if ret ≠ .mapFull ∨ s.fReadOnly then return .inr (ret, s)
  let (fRecovered, s) ← s.recoverFromMapFull
  if ¬ fRecovered then return .inr (ret, s)
  let ret ← perform .txnCommit
  return .inl (ret, { s with txn := false })

def commit : GateProgram (Bool × CLMDBTransaction) := do
  if ¬ s.txn then
    let s ← s.release
    return (false, s)
  let ret ← perform .txnCommit
  let (ret, s) ← Prog.repeatUntil (ret, { s with txn := false }) commitRound
  let fCommitted := decide (ret = .success)
  let s ← release { s with fCommitted := fCommitted }
  return (fCommitted, s)

def abort : GateProgram CLMDBTransaction := do
  let s ← s.abortTxn
  release { s with fAborted := true }

/-- The destructor. -/
def destroy : GateProgram Unit := do
  let s ← s.abortTxn
  let _ ← s.release

/-- `CLMDBDatabase::BeginTransaction` on an open database. -/
def beginTransaction (fReadOnly : Bool) : GateProgram (Option CLMDBTransaction) := do
  perform .acquireTransactionLease
  if ¬ fReadOnly then
    if ¬ (← perform .tryAcquireWriter) then
      perform .releaseTransactionLease
      return none
  if ¬ (← perform .txnBegin) then
    if ¬ fReadOnly then perform .releaseWriter
    perform .releaseTransactionLease
    return none
  return some { txn := true, fReadOnly, fWriterHeld := !fReadOnly, fLeaseHeld := true }

end CLMDBTransaction

/-! ## Threads -/

/-- What threads call. A transaction may be used by one thread after another. `growMap` is a
call of `GrowMap` by a thread that takes the writer slot for it, which its comment asks for. -/
inductive Call where
  | beginTransaction (fReadOnly : Bool)
  | growMap
  | mutate (m : Mutation)
  | newIterator
  | closeIterator
  | commit
  | abort
  | destroy
deriving DecidableEq

/-- A call that has no transaction yet. -/
def Call.start : Call → Option (GateProgram (Option CLMDBTransaction))
  | beginTransaction fReadOnly => some (CLMDBTransaction.beginTransaction fReadOnly)
  | growMap => some do
    if ← perform .tryAcquireWriter then
      let _ ← Gate.growMap
      perform .releaseWriter
    return none
  | _ => none

/-- A call on a transaction: its program ends with the transaction, unless it destroys it. -/
def Call.on (s : CLMDBTransaction) : Call → Option (GateProgram (Option CLMDBTransaction))
  | mutate m => some do
    let (_, s) ← s.mutate m
    return some s
  | newIterator => some (return some { s with nActiveIterators := s.nActiveIterators + 1 })
  | closeIterator => some (return some { s with nActiveIterators := s.nActiveIterators - 1 })
  | commit => some do
    let (_, s) ← s.commit
    return some s
  | abort => some do
    let s ← s.abort
    return some s
  | destroy => some do
    s.destroy
    return none
  | _ => none

/-- What a transaction, or a call of `GrowMap`, has done so far. -/
structure Ledger where
  leaseAcquired : ℕ := 0
  leaseReleased : ℕ := 0
  writerAcquired : ℕ := 0
  writerReleased : ℕ := 0
  /-- It has a transaction of LMDB. -/
  fTxn : Bool := false
  /-- It is in `GrowMap`, past the checks. -/
  fGrowing : Bool := false
  /-- It is in `GrowMap`, past the wait. -/
  fResizing : Bool := false

def Ledger.note (l : Ledger) : (x : Action) → x.Answer → Ledger
  | .acquireTransactionLease, _ => { l with leaseAcquired := l.leaseAcquired + 1 }
  | .releaseTransactionLease, _ => { l with leaseReleased := l.leaseReleased + 1 }
  | .tryAcquireWriter, fAcquired =>
    if fAcquired then { l with writerAcquired := l.writerAcquired + 1 } else l
  | .releaseWriter, _ => { l with writerReleased := l.writerReleased + 1 }
  | .growBegin, fPassed => { l with fGrowing := fPassed }
  | .growDrained, _ => { l with fResizing := true }
  | .growEnd, _ => { l with fGrowing := false, fResizing := false }
  | .txnBegin, fBegun => { l with fTxn := fBegun }
  | .txnCommit, _ => { l with fTxn := false }
  | .txnAbort, _ => { l with fTxn := false }
  | _, _ => l

inductive Phase where
  | running (call : Call) (p : GateProgram (Option CLMDBTransaction))
  | idle (last : Call) (s : CLMDBTransaction)
  | gone

structure Task where
  ledger : Ledger := {}
  phase : Phase

/-- The environment and all transactions and calls that there have been. -/
structure System where
  env : CLMDBEnv := {}
  tasks : List Task := []

/-- One step of one thread, with the action that it performs. -/
inductive System.Step : System → Option (Σ x : Action, x.Answer) → System → Prop
  | start (env : CLMDBEnv) (tasks : List Task) (call : Call)
      (p : GateProgram (Option CLMDBTransaction)) (hcall : call.start = some p) :
      Step ⟨env, tasks⟩ none ⟨env, tasks ++ [{ phase := .running call p }]⟩
  | call (env : CLMDBEnv) (before after : List Task) (l : Ledger) (last call : Call)
      (s : CLMDBTransaction) (p : GateProgram (Option CLMDBTransaction))
      (hcall : call.on s = some p) :
      Step ⟨env, before ++ ⟨l, .idle last s⟩ :: after⟩ none
        ⟨env, before ++ ⟨l, .running call p⟩ :: after⟩
  | act (env env' : CLMDBEnv) (before after : List Task) (l : Ledger) (call : Call)
      (p p' : GateProgram (Option CLMDBTransaction)) (x : Action) (r : x.Answer)
      (hstep : p.Step (some ⟨x, r⟩) p') (henv : env.perform x r = some env') :
      Step ⟨env, before ++ ⟨l, .running call p⟩ :: after⟩ (some ⟨x, r⟩)
        ⟨env', before ++ ⟨l.note x r, .running call p'⟩ :: after⟩
  | round (env : CLMDBEnv) (before after : List Task) (l : Ledger) (call : Call)
      (p p' : GateProgram (Option CLMDBTransaction)) (hstep : p.Step none p') :
      Step ⟨env, before ++ ⟨l, .running call p⟩ :: after⟩ none
        ⟨env, before ++ ⟨l, .running call p'⟩ :: after⟩
  | done (env : CLMDBEnv) (before after : List Task) (l : Ledger) (call : Call)
      (result : Option CLMDBTransaction) :
      Step ⟨env, before ++ ⟨l, .running call (.ret result)⟩ :: after⟩ none
        ⟨env, before ++ ⟨l, match result with
          | some s => .idle call s
          | none => .gone⟩ :: after⟩

/-- The systems that the steps of the threads lead to, in any order. -/
inductive System.Reachable : System → Prop
  | start : Reachable {}
  | step {S S' : System} {label : Option (Σ x : Action, x.Answer)} (h : Reachable S)
      (hstep : S.Step label S') : Reachable S'

end Phoenixcoin.Program.Gate
