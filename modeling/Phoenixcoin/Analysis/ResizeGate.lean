import Mathlib.Algebra.Order.Ring.Int
import Phoenixcoin.Program.ResizeGate

/-!
# The map is resized only when no transaction is open

Each transaction keeps its flags in step with what it holds, on every path of every call. So the
counters of the environment are the sums of what all transactions hold, whatever the order of the
threads' actions.
-/

set_option autoImplicit false

namespace Phoenixcoin.Analysis

open Lib Program.Gate List CLMDBTransaction System
open Program (Mutation MdbCode)

/-! ## What one program does -/

/-- When a program may perform an action, by what it holds. -/
def actionAllowed (l : Ledger) : Action → Prop
  | .acquireTransactionLease => l.leaseAcquired = l.leaseReleased ∧ l.fGrowing = false
  | .releaseTransactionLease => l.leaseAcquired = l.leaseReleased + 1 ∧ l.fTxn = false
  | .tryAcquireWriter => l.writerAcquired = l.writerReleased
  | .releaseWriter => l.writerAcquired = l.writerReleased + 1 ∧ l.fGrowing = false
  | .growBegin => l.writerAcquired = l.writerReleased + 1 ∧ l.leaseAcquired = l.leaseReleased ∧
      l.fGrowing = false ∧ l.fResizing = false
  | .growDrained => l.fGrowing = true ∧ l.fResizing = false
  | .setMapsize => l.fResizing = true
  | .growEnd => l.fResizing = true
  | .getEnv => True
  | .txnBegin => l.leaseAcquired = l.leaseReleased + 1 ∧ l.fTxn = false
  | .txnCommit => l.fTxn = true
  | .txnAbort => l.fTxn = true
  | .call _ => l.fTxn = true

def gateBook : Bookkeeping Action Action.Answer Ledger := ⟨actionAllowed, Ledger.note⟩

/-- The flags of a transaction say what it holds. -/
structure Matches (s : CLMDBTransaction) (l : Ledger) : Prop where
  lease : l.leaseAcquired = l.leaseReleased + s.fLeaseHeld.toNat
  writer : l.writerAcquired = l.writerReleased + s.fWriterHeld.toNat
  txn : l.fTxn = s.txn
  covered : s.txn = true → s.fLeaseHeld = true
  quiet : l.fGrowing = false ∧ l.fResizing = false

section Programs

variable {s : CLMDBTransaction} {l : Ledger}

theorem releaseWriter_safe (h : Matches s l) : s.releaseWriter.Safe gateBook l fun s' l' =>
    Matches s' l' ∧ s' = { s with fWriterHeld := false } := by
  unfold releaseWriter
  cases hheld : s.fWriterHeld with
  | true =>
    have hwriter := h.writer
    rw [hheld] at hwriter
    refine Prog.Safe.bind (Prog.Safe.perform ⟨hwriter, h.quiet.1⟩ fun _ => ?_)
    refine ⟨⟨h.lease, ?_, h.txn, h.covered, h.quiet⟩, rfl⟩
    exact hwriter
  | false =>
    refine ⟨h, ?_⟩
    rw [← hheld]

theorem releaseLease_safe (h : Matches s l) (htxn : s.txn = false) :
    s.releaseLease.Safe gateBook l fun s' l' =>
      Matches s' l' ∧ s' = { s with fLeaseHeld := false } := by
  unfold releaseLease
  cases hheld : s.fLeaseHeld with
  | true =>
    have hlease := h.lease
    rw [hheld] at hlease
    refine Prog.Safe.bind (Prog.Safe.perform ⟨hlease, h.txn.trans htxn⟩ fun _ => ?_)
    refine ⟨⟨hlease, h.writer, h.txn, fun htrue => ?_, h.quiet⟩, rfl⟩
    rw [htxn] at htrue
    cases htrue
  | false =>
    refine ⟨h, ?_⟩
    rw [← hheld]

theorem abortTxn_safe (h : Matches s l) : s.abortTxn.Safe gateBook l fun s' l' =>
    Matches s' l' ∧ s' = { s with txn := false } := by
  unfold abortTxn
  cases htxn : s.txn with
  | true =>
    refine Prog.Safe.bind (Prog.Safe.perform (h.txn.trans htxn) fun _ => ?_)
    exact ⟨⟨h.lease, h.writer, rfl, nofun, h.quiet⟩, rfl⟩
  | false =>
    refine ⟨h, ?_⟩
    rw [← htxn]

/-- `ClearMutations`, `ReleaseWriter` and `ReleaseLease` leave nothing held. -/
theorem release_safe (h : Matches s l) (htxn : s.txn = false) :
    s.release.Safe gateBook l fun s' l' =>
      Matches s' l' ∧ s'.fWriterHeld = false ∧ s'.fLeaseHeld = false := by
  have hcleared : Matches { s with mutations := [] } l :=
    ⟨h.lease, h.writer, h.txn, h.covered, h.quiet⟩
  refine Prog.Safe.bind ((releaseWriter_safe hcleared).mono fun s₁ l₁ h₁ => ?_)
  obtain ⟨hmatches, rfl⟩ := h₁
  refine (releaseLease_safe hmatches htxn).mono fun s₂ l₂ h₂ => ?_
  obtain ⟨hmatches, rfl⟩ := h₂
  exact ⟨hmatches, rfl, rfl⟩

/-- A call of `GrowMap` leaves its caller as it was. -/
theorem growMap_safe (hwriter : l.writerAcquired = l.writerReleased + 1)
    (hlease : l.leaseAcquired = l.leaseReleased)
    (hquiet : l.fGrowing = false ∧ l.fResizing = false) :
    growMap.Safe gateBook l fun _ l' => l' = l := by
  refine Prog.Safe.bind (Prog.Safe.perform ⟨hwriter, hlease, hquiet⟩ fun fPassed => ?_)
  obtain ⟨hgrowing, hresizing⟩ := hquiet
  have hsame : ({ l with fGrowing := false, fResizing := false } : Ledger) = l := by
    cases l
    cases hgrowing
    cases hresizing
    rfl
  cases fPassed with
  | false =>
    rw [← hsame]
    rfl
  | true =>
    refine Prog.Safe.bind (Prog.Safe.perform ⟨rfl, hresizing⟩ fun _ => ?_)
    refine Prog.Safe.bind (Prog.Safe.perform rfl fun fGrown => ?_)
    exact Prog.Safe.bind (Prog.Safe.perform rfl fun _ => hsame)

theorem replayMutations_safe (mutations : List Mutation) (htxn : l.fTxn = true) :
    (replayMutations mutations).Safe gateBook l fun _ l' => l' = l := by
  induction mutations with
  | nil => exact rfl
  | cons m mutations ih =>
    refine Prog.Safe.bind (Prog.Safe.perform htxn fun ret => ?_)
    split
    · exact ih
    · exact rfl

/-- Whatever a round of the recovery comes to, the flags are right, and a transaction that it
reports as recovered is open. -/
theorem recoverRound_safe (h : Matches s l) (hwriter : s.fWriterHeld = true) :
    s.recoverRound.Safe gateBook l fun c l' => c.elim
      (fun s' => Matches s' l' ∧ s'.fWriterHeld = true)
      (fun result => Matches result.2 l' ∧ result.2.txn = result.1) := by
  refine Prog.Safe.bind ((abortTxn_safe h).mono fun s₁ l₁ h₁ => ?_)
  obtain ⟨h₁, rfl⟩ := h₁
  refine Prog.Safe.bind ((releaseLease_safe h₁ rfl).mono fun s₂ l₂ h₂ => ?_)
  obtain ⟨h₂, rfl⟩ := h₂
  have hheld : l₂.writerAcquired = l₂.writerReleased + 1 := by
    have hmatches := h₂.writer
    rw [hwriter] at hmatches
    exact hmatches
  refine Prog.Safe.bind ((growMap_safe hheld h₂.lease h₂.quiet).mono fun fGrown l₃ hl₃ => ?_)
  subst hl₃
  cases fGrown with
  | false => exact ⟨h₂, rfl⟩
  | true =>
    refine Prog.Safe.bind (Prog.Safe.perform ⟨h₂.lease, h₂.quiet.1⟩ fun _ => ?_)
    have hleased : Matches { s with txn := false, fLeaseHeld := true }
        { l₃ with leaseAcquired := l₃.leaseAcquired + 1 } :=
      ⟨congrArg (· + 1) h₂.lease, h₂.writer, h₂.txn, nofun, h₂.quiet⟩
    refine Prog.Safe.bind (Prog.Safe.perform ⟨hleased.lease, hleased.txn⟩ fun fBegun => ?_)
    cases fBegun with
    | false =>
      have hfailed : Matches { s with txn := false, fLeaseHeld := true }
          { l₃ with leaseAcquired := l₃.leaseAcquired + 1, fTxn := false } :=
        ⟨hleased.lease, hleased.writer, rfl, nofun, hleased.quiet⟩
      refine Prog.Safe.bind ((releaseLease_safe hfailed rfl).mono fun s₄ l₄ h₄ => ?_)
      obtain ⟨h₄, rfl⟩ := h₄
      exact ⟨h₄, rfl⟩
    | true =>
      have hbegun : Matches { s with txn := true, fLeaseHeld := true }
          { l₃ with leaseAcquired := l₃.leaseAcquired + 1, fTxn := true } :=
        ⟨hleased.lease, hleased.writer, rfl, fun _ => rfl, hleased.quiet⟩
      refine Prog.Safe.bind ((replayMutations_safe s.mutations rfl).mono fun ret l₄ hl₄ => ?_)
      subst hl₄
      split
      · exact ⟨hbegun, rfl⟩
      · split
        · exact ⟨hbegun, hwriter⟩
        · refine Prog.Safe.bind ((abortTxn_safe hbegun).mono fun s₅ l₅ h₅ => ?_)
          obtain ⟨h₅, rfl⟩ := h₅
          refine Prog.Safe.bind ((releaseLease_safe h₅ rfl).mono fun s₆ l₆ h₆ => ?_)
          obtain ⟨h₆, rfl⟩ := h₆
          exact ⟨h₆, rfl⟩

theorem recoverFromMapFull_safe (h : Matches s l) :
    s.recoverFromMapFull.Safe gateBook l fun result l' =>
      Matches result.2 l' ∧ (result.2.txn = result.1 ∨ result = (false, s)) := by
  unfold recoverFromMapFull
  split
  · exact ⟨h, Or.inr rfl⟩
  · refine Prog.Safe.bind (Prog.Safe.perform trivial fun fOpen => ?_)
    split
    · exact ⟨h, Or.inr rfl⟩
    · split
      · exact ⟨h, Or.inr rfl⟩
      · next hwriter =>
        split
        · exact ⟨h, Or.inr rfl⟩
        · refine Prog.Safe.repeatUntil (fun s l => Matches s l ∧ s.fWriterHeld = true)
            ⟨h, not_not.mp hwriter⟩ fun s l hs => ?_
          refine (recoverRound_safe hs.1 hs.2).mono fun c l' hc => ?_
          cases c with
          | inl s' => exact hc
          | inr result => exact ⟨hc.1, Or.inl hc.2⟩

theorem mutate_safe (m : Mutation) (h : Matches s l) :
    (s.mutate m).Safe gateBook l fun result l' => Matches result.2 l' := by
  unfold mutate
  split
  · exact h
  · next hopen =>
    have htxn : s.txn = true := by
      rw [not_or, not_not] at hopen
      exact hopen.1
    refine Prog.Safe.repeatUntil (fun s l => Matches s l ∧ s.txn = true) ⟨h, htxn⟩ fun s l hs => ?_
    obtain ⟨h, htxn⟩ := hs
    refine Prog.Safe.bind (Prog.Safe.perform (h.txn.trans htxn) fun ret => ?_)
    split
    · unfold record
      split
      · exact h
      · exact ⟨h.lease, h.writer, h.txn, h.covered, h.quiet⟩
    · split
      · exact h
      · refine Prog.Safe.bind ((recoverFromMapFull_safe h).mono fun result l' hresult => ?_)
        obtain ⟨fRecovered, s'⟩ := result
        cases fRecovered with
        | true => exact ⟨hresult.1, hresult.2.resolve_right nofun⟩
        | false => exact hresult.1

theorem commitRound_safe {state : MdbCode × CLMDBTransaction} (h : Matches state.2 l)
    (htxn : state.2.txn = false) : (CLMDBTransaction.commitRound state).Safe gateBook l fun c l' =>
      c.elim (fun state => Matches state.2 l' ∧ state.2.txn = false)
        (fun state => Matches state.2 l' ∧ state.2.txn = false) := by
  unfold CLMDBTransaction.commitRound
  dsimp only at h htxn ⊢
  split
  · exact ⟨h, htxn⟩
  · refine Prog.Safe.bind ((recoverFromMapFull_safe h).mono fun result l' hresult => ?_)
    obtain ⟨fRecovered, s'⟩ := result
    cases fRecovered with
    | false =>
      refine ⟨hresult.1, hresult.2.elim id fun hsame => ?_⟩
      cases hsame
      exact htxn
    | true =>
      have hopen : s'.txn = true := hresult.2.resolve_right nofun
      have hmatches := hresult.1
      refine Prog.Safe.bind (Prog.Safe.perform (hmatches.txn.trans hopen) fun ret' => ?_)
      exact ⟨⟨hmatches.lease, hmatches.writer, rfl, nofun, hmatches.quiet⟩, rfl⟩

/-- `Commit` leaves nothing held, also when a commit or a recovery fails. -/
theorem commit_safe (h : Matches s l) : s.commit.Safe gateBook l fun result l' =>
    Matches result.2 l' ∧ result.2.fWriterHeld = false ∧ result.2.fLeaseHeld = false := by
  unfold commit
  split
  · next hclosed =>
    have htxn : s.txn = false := by
      rw [Bool.not_eq_true] at hclosed
      exact hclosed
    exact Prog.Safe.bind ((release_safe h htxn).mono fun s' l' h' => h')
  · next hopen =>
    have htxn : s.txn = true := not_not.mp hopen
    refine Prog.Safe.bind (Prog.Safe.perform (h.txn.trans htxn) fun ret => ?_)
    have hended : Matches { s with txn := false } { l with fTxn := false } :=
      ⟨h.lease, h.writer, rfl, nofun, h.quiet⟩
    refine Prog.Safe.bind (Prog.Safe.repeatUntil
      (fun state l => Matches state.2 l ∧ state.2.txn = false) ⟨hended, rfl⟩ fun state l hs => ?_)
    refine (commitRound_safe hs.1 hs.2).mono fun c l' hc => ?_
    cases c with
    | inl state => exact hc
    | inr state =>
      obtain ⟨ret', s'⟩ := state
      obtain ⟨hstate, hclosed⟩ := hc
      have hmarked : Matches { s' with fCommitted := decide (ret' = .success) } l' :=
        ⟨hstate.lease, hstate.writer, hstate.txn, hstate.covered, hstate.quiet⟩
      exact Prog.Safe.bind ((release_safe hmarked hclosed).mono fun s'' l'' h'' => h'')

theorem abort_safe (h : Matches s l) : s.abort.Safe gateBook l fun s' l' =>
    Matches s' l' ∧ s'.fWriterHeld = false ∧ s'.fLeaseHeld = false := by
  refine Prog.Safe.bind ((abortTxn_safe h).mono fun s₁ l₁ h₁ => ?_)
  obtain ⟨h₁, rfl⟩ := h₁
  exact release_safe (s := { s with txn := false, fAborted := true })
    ⟨h₁.lease, h₁.writer, h₁.txn, h₁.covered, h₁.quiet⟩ rfl

structure Settled (l : Ledger) : Prop where
  lease : l.leaseAcquired = l.leaseReleased
  writer : l.writerAcquired = l.writerReleased
  quiet : l.fTxn = false ∧ l.fGrowing = false ∧ l.fResizing = false

theorem Matches.settled (h : Matches s l) (hwriter : s.fWriterHeld = false)
    (hlease : s.fLeaseHeld = false) : Settled l := by
  obtain ⟨h1, h2, h3, h4, h5⟩ := h
  rw [hlease] at h1 h4
  rw [hwriter] at h2
  have htxn : s.txn = false := by
    by_contra hopen
    exact Bool.false_ne_true (h4 (Bool.not_eq_false _ ▸ hopen))
  exact ⟨h1, h2, h3.trans htxn, h5⟩

theorem destroy_safe (h : Matches s l) : s.destroy.Safe gateBook l fun _ l' => Settled l' := by
  refine Prog.Safe.bind ((abortTxn_safe h).mono fun s₁ l₁ h₁ => ?_)
  obtain ⟨h₁, rfl⟩ := h₁
  refine Prog.Safe.bind ((release_safe h₁ rfl).mono fun s₂ l₂ h₂ => ?_)
  exact h₂.1.settled h₂.2.1 h₂.2.2

/-- A transaction that begins holds a lease, and the writer slot if it may write. Where it fails
to begin, nothing stays held. -/
theorem beginTransaction_safe (fReadOnly : Bool) :
    (beginTransaction fReadOnly).Safe gateBook {} fun result l' =>
      match result with
      | some s => Matches s l'
      | none => Settled l' := by
  refine Prog.Safe.bind (Prog.Safe.perform ⟨rfl, rfl⟩ fun _ => ?_)
  cases fReadOnly with
  | true =>
    refine Prog.Safe.bind (Prog.Safe.perform ⟨rfl, rfl⟩ fun fBegun => ?_)
    cases fBegun with
    | false =>
      exact Prog.Safe.bind (Prog.Safe.perform ⟨rfl, rfl⟩ fun _ => ⟨rfl, rfl, rfl, rfl, rfl⟩)
    | true => exact ⟨rfl, rfl, rfl, fun _ => rfl, rfl, rfl⟩
  | false =>
    refine Prog.Safe.bind (Prog.Safe.perform rfl fun fAcquired => ?_)
    cases fAcquired with
    | false =>
      exact Prog.Safe.bind (Prog.Safe.perform ⟨rfl, rfl⟩ fun _ => ⟨rfl, rfl, rfl, rfl, rfl⟩)
    | true =>
      refine Prog.Safe.bind (Prog.Safe.perform ⟨rfl, rfl⟩ fun fBegun => ?_)
      cases fBegun with
      | false =>
        refine Prog.Safe.bind (Prog.Safe.perform ⟨rfl, rfl⟩ fun _ => ?_)
        exact Prog.Safe.bind (Prog.Safe.perform ⟨rfl, rfl⟩ fun _ => ⟨rfl, rfl, rfl, rfl, rfl⟩)
      | true => exact ⟨rfl, rfl, rfl, fun _ => rfl, rfl, rfl⟩

def Returned (call : Call) (result : Option CLMDBTransaction) (l : Ledger) : Prop :=
  match result with
  | some s => Matches s l ∧ (call = .commit ∨ call = .abort → Settled l)
  | none => Settled l

variable {call : Call} {p : GateProgram (Option CLMDBTransaction)}

theorem start_safe (hcall : call.start = some p) : p.Safe gateBook {} (Returned call) := by
  cases call with
  | beginTransaction fReadOnly =>
    cases hcall
    refine (beginTransaction_safe fReadOnly).mono fun result l h => ?_
    cases result with
    | some s => exact ⟨h, fun hends => by cases hends <;> contradiction⟩
    | none => exact h
  | growMap =>
    cases hcall
    refine Prog.Safe.bind (Prog.Safe.perform rfl fun fAcquired => ?_)
    cases fAcquired with
    | false => exact ⟨rfl, rfl, rfl, rfl, rfl⟩
    | true =>
      refine Prog.Safe.bind ((growMap_safe rfl rfl ⟨rfl, rfl⟩).mono fun fGrown l hl => ?_)
      subst hl
      exact Prog.Safe.bind (Prog.Safe.perform ⟨rfl, rfl⟩ fun _ => ⟨rfl, rfl, rfl, rfl, rfl⟩)
  | mutate m => cases hcall
  | newIterator => cases hcall
  | closeIterator => cases hcall
  | commit => cases hcall
  | abort => cases hcall
  | destroy => cases hcall

theorem on_safe (hcall : call.on s = some p) (h : Matches s l) :
    p.Safe gateBook l (Returned call) := by
  cases call with
  | beginTransaction fReadOnly => cases hcall
  | growMap => cases hcall
  | mutate m =>
    cases hcall
    refine Prog.Safe.bind ((mutate_safe m h).mono fun result l' hresult => ?_)
    exact ⟨hresult, fun hends => by cases hends <;> contradiction⟩
  | newIterator =>
    cases hcall
    exact ⟨⟨h.lease, h.writer, h.txn, h.covered, h.quiet⟩,
      fun hends => by cases hends <;> contradiction⟩
  | closeIterator =>
    cases hcall
    exact ⟨⟨h.lease, h.writer, h.txn, h.covered, h.quiet⟩,
      fun hends => by cases hends <;> contradiction⟩
  | commit =>
    cases hcall
    refine Prog.Safe.bind ((commit_safe h).mono fun result l' hresult => ?_)
    exact ⟨hresult.1, fun _ => hresult.1.settled hresult.2.1 hresult.2.2⟩
  | abort =>
    cases hcall
    refine Prog.Safe.bind ((abort_safe h).mono fun s' l' hresult => ?_)
    exact ⟨hresult.1, fun _ => hresult.1.settled hresult.2.1 hresult.2.2⟩
  | destroy =>
    cases hcall
    exact Prog.Safe.bind ((destroy_safe h).mono fun _ l' hsettled => hsettled)

end Programs

/-! ## What a ledger says -/

structure LedgerOk (l : Ledger) : Prop where
  lease : l.leaseReleased ≤ l.leaseAcquired ∧ l.leaseAcquired ≤ l.leaseReleased + 1
  writer : l.writerReleased ≤ l.writerAcquired ∧ l.writerAcquired ≤ l.writerReleased + 1
  txn : l.fTxn = true → l.leaseAcquired = l.leaseReleased + 1
  growing : l.fGrowing = true →
    l.writerAcquired = l.writerReleased + 1 ∧ l.leaseAcquired = l.leaseReleased
  resizing : l.fResizing = true → l.fGrowing = true

def leasesOf (l : Ledger) : ℕ := l.leaseAcquired - l.leaseReleased

def writersOf (l : Ledger) : ℕ := l.writerAcquired - l.writerReleased

section Actions

variable {l : Ledger} {env env' : CLMDBEnv} {x : Action} {r : x.Answer}

theorem LedgerOk.note (h : LedgerOk l) (hallowed : actionAllowed l x) : LedgerOk (l.note x r) := by
  obtain ⟨hlease, hwriter, htxn, hgrowing, hresizing⟩ := h
  cases x with
  | acquireTransactionLease =>
    obtain ⟨hfree, hquiet⟩ := hallowed
    refine ⟨?_, hwriter, fun hopen => ?_, fun htrue => ?_, hresizing⟩
    · dsimp only [Ledger.note]
      omega
    · have hheld := htxn hopen
      omega
    · exact absurd (hquiet.symm.trans htrue) Bool.false_ne_true
  | releaseTransactionLease =>
    obtain ⟨hheld, hclosed⟩ := hallowed
    refine ⟨?_, hwriter, fun hopen => ?_, fun htrue => ?_, hresizing⟩
    · dsimp only [Ledger.note]
      omega
    · exact absurd (hclosed.symm.trans hopen) Bool.false_ne_true
    · have hfree := (hgrowing htrue).2
      omega
  | tryAcquireWriter =>
    have hfree : l.writerAcquired = l.writerReleased := hallowed
    cases r with
    | false => exact ⟨hlease, hwriter, htxn, hgrowing, hresizing⟩
    | true =>
      refine ⟨hlease, ?_, htxn, fun htrue => ?_, hresizing⟩
      · show l.writerReleased ≤ l.writerAcquired + 1 ∧
          l.writerAcquired + 1 ≤ l.writerReleased + 1
        omega
      · have hheld := (hgrowing htrue).1
        omega
  | releaseWriter =>
    obtain ⟨hheld, hquiet⟩ := hallowed
    refine ⟨hlease, ?_, htxn, fun htrue => ?_, hresizing⟩
    · dsimp only [Ledger.note]
      omega
    · exact absurd (hquiet.symm.trans htrue) Bool.false_ne_true
  | growBegin =>
    obtain ⟨hheld, hfree, -, hsettled⟩ := hallowed
    exact ⟨hlease, hwriter, htxn, fun _ => ⟨hheld, hfree⟩,
      fun htrue => absurd (hsettled.symm.trans htrue) Bool.false_ne_true⟩
  | growDrained => exact ⟨hlease, hwriter, htxn, hgrowing, fun _ => hallowed.1⟩
  | growEnd => exact ⟨hlease, hwriter, htxn, nofun, nofun⟩
  | txnBegin => exact ⟨hlease, hwriter, fun _ => hallowed.1, hgrowing, hresizing⟩
  | txnCommit => exact ⟨hlease, hwriter, nofun, hgrowing, hresizing⟩
  | txnAbort => exact ⟨hlease, hwriter, nofun, hgrowing, hresizing⟩
  | setMapsize => exact ⟨hlease, hwriter, htxn, hgrowing, hresizing⟩
  | getEnv => exact ⟨hlease, hwriter, htxn, hgrowing, hresizing⟩
  | call m => exact ⟨hlease, hwriter, htxn, hgrowing, hresizing⟩

/-- How a flag of the environment follows the flags of the ledgers. -/
inductive FlagMoves (flag flag' own own' : Bool) : Prop where
  | same (hflag : flag' = flag) (hown : own' = own)
  | raised (hflag : flag' = true) (hown : own' = true)
  | lowered (hflag : flag' = false) (hbefore : own = true) (hown : own' = false)

/-- What one action does to the environment, beside what it does to the ledger. -/
structure Effect (env env' : CLMDBEnv) (l l' : Ledger) : Prop where
  leases : env'.nActiveTxns + leasesOf l = env.nActiveTxns + leasesOf l'
  writers : env'.fWriterActive.toNat + writersOf l = env.fWriterActive.toNat + writersOf l'
  pending : FlagMoves env.fResizePending env'.fResizePending l.fGrowing l'.fGrowing
  resizing : FlagMoves env.fResizing env'.fResizing l.fResizing l'.fResizing
  drained : (env.fResizing = true → env.nActiveTxns = 0) →
    env'.fResizing = true → env'.nActiveTxns = 0

theorem perform_effect (h : LedgerOk l) (hallowed : actionAllowed l x)
    (henv : env.perform x r = some env') (hleases : leasesOf l ≤ env.nActiveTxns)
    (hwriters : writersOf l ≤ env.fWriterActive.toNat) : Effect env env' l (l.note x r) := by
  have hunmoved : env' = env → l.note x r = { l with fTxn := (l.note x r).fTxn } →
      Effect env env' l (l.note x r) := by
    intro hsame hnote
    rw [hnote, hsame]
    exact ⟨rfl, rfl, .same rfl rfl, .same rfl rfl, id⟩
  cases x with
  | acquireTransactionLease =>
    dsimp only [CLMDBEnv.perform] at henv
    obtain ⟨hfree, -⟩ := hallowed
    split at henv
    · cases henv
    · next hopen =>
      cases henv
      refine ⟨?_, rfl, .same rfl rfl, .same rfl rfl, fun _ htrue => absurd (Or.inl htrue) hopen⟩
      dsimp only [leasesOf, Ledger.note]
      omega
  | releaseTransactionLease =>
    dsimp only [CLMDBEnv.perform] at henv
    obtain ⟨hheld, -⟩ := hallowed
    split at henv
    · cases henv
    · next hopen =>
      cases henv
      refine ⟨?_, rfl, .same rfl rfl, .same rfl rfl, fun _ htrue => absurd htrue hopen⟩
      dsimp only [leasesOf, Ledger.note] at hleases ⊢
      rw [if_pos (by omega)]
      omega
  | tryAcquireWriter =>
    dsimp only [CLMDBEnv.perform] at henv
    have hfree : l.writerAcquired = l.writerReleased := hallowed
    split at henv
    · next hanswer =>
      cases henv
      refine ⟨?_, ?_, ?_, ?_, id⟩
      · cases r <;> rfl
      · cases r with
        | false =>
          have hactive : env.fWriterActive = true := by simpa using hanswer.symm
          rw [hactive]
          rfl
        | true =>
          have hinactive : env.fWriterActive = false := by simpa using hanswer.symm
          rw [hinactive]
          show 1 + (l.writerAcquired - l.writerReleased) =
            0 + (l.writerAcquired + 1 - l.writerReleased)
          omega
      · cases r <;> exact .same rfl rfl
      · cases r <;> exact .same rfl rfl
    · cases henv
  | releaseWriter =>
    cases henv
    obtain ⟨hheld, -⟩ := hallowed
    refine ⟨rfl, ?_, .same rfl rfl, .same rfl rfl, id⟩
    have hactive : env.fWriterActive = true := by
      cases hcase : env.fWriterActive with
      | true => rfl
      | false =>
        rw [hcase] at hwriters
        dsimp only [writersOf, Bool.toNat_false] at hwriters
        omega
    rw [hactive]
    show 0 + (l.writerAcquired - l.writerReleased) = 1 + (l.writerAcquired - (l.writerReleased + 1))
    omega
  | growBegin =>
    dsimp only [CLMDBEnv.perform] at henv
    obtain ⟨-, -, hquiet, -⟩ := hallowed
    split at henv
    · cases henv
    · cases henv
      cases r with
      | false => exact ⟨rfl, rfl, .same rfl hquiet.symm, .same rfl rfl, id⟩
      | true => exact ⟨rfl, rfl, .raised rfl rfl, .same rfl rfl, id⟩
  | growDrained =>
    dsimp only [CLMDBEnv.perform] at henv
    split at henv
    · cases henv
    · next hdrained =>
      cases henv
      refine ⟨rfl, rfl, .same rfl rfl, .raised rfl rfl, fun _ _ => ?_⟩
      exact not_not.mp fun hne => hdrained (Or.inr hne)
  | growEnd =>
    cases henv
    exact ⟨rfl, rfl, .lowered rfl (h.resizing hallowed) rfl, .lowered rfl hallowed rfl, nofun⟩
  | setMapsize => exact hunmoved (Option.some.inj henv).symm rfl
  | getEnv => exact hunmoved (Option.some.inj henv).symm rfl
  | txnBegin => exact hunmoved (Option.some.inj henv).symm rfl
  | txnCommit => exact hunmoved (Option.some.inj henv).symm rfl
  | txnAbort => exact hunmoved (Option.some.inj henv).symm rfl
  | call m => exact hunmoved (Option.some.inj henv).symm rfl

end Actions

/-! ## All threads together -/

/-- A transaction or a call between two of its actions. -/
structure TaskOk (t : Task) : Prop where
  ledger : LedgerOk t.ledger
  phase : match t.phase with
    | .running call p => p.Safe gateBook t.ledger (Returned call)
    | .idle last s => Returned last (some s) t.ledger
    | .gone => Settled t.ledger

/-- The counters and flags of the environment are the sums of what the tasks hold. -/
structure SystemOk (S : System) : Prop where
  tasks : ∀ t ∈ S.tasks, TaskOk t
  leases : S.env.nActiveTxns = (S.tasks.map fun t => leasesOf t.ledger).sum
  writers : S.env.fWriterActive.toNat = (S.tasks.map fun t => writersOf t.ledger).sum
  pending : S.env.fResizePending = true ↔ ∃ t ∈ S.tasks, t.ledger.fGrowing = true
  resizing : S.env.fResizing = true ↔ ∃ t ∈ S.tasks, t.ledger.fResizing = true
  drained : S.env.fResizing = true → S.env.nActiveTxns = 0

section Systems

variable {env env' : CLMDBEnv} {before after : List Task} {t t' : Task}

theorem sum_middle (f : Task → ℕ) : ((before ++ t :: after).map f).sum =
    f t + ((before ++ after).map f).sum := by
  rw [map_append, map_cons, sum_append, sum_cons, map_append, sum_append]
  omega

theorem exists_middle (P : Task → Prop) :
    (∃ u ∈ before ++ t :: after, P u) ↔ P t ∨ ∃ u ∈ before ++ after, P u := by
  simp only [mem_append, mem_cons, or_and_right, exists_or, exists_eq_left]
  exact or_left_comm

theorem forall_middle (P : Task → Prop) :
    (∀ u ∈ before ++ t :: after, P u) ↔ P t ∧ ∀ u ∈ before ++ after, P u := by
  rw [forall_mem_append, forall_mem_cons, forall_mem_append]
  exact and_left_comm

theorem FlagMoves.exists {flag flag' : Bool} (f : Task → Bool)
    (h : FlagMoves flag flag' (f t) (f t'))
    (halone : f t = true → ∀ u ∈ before ++ after, f u = false)
    (hflag : flag = true ↔ ∃ u ∈ before ++ t :: after, f u = true) :
    flag' = true ↔ ∃ u ∈ before ++ t' :: after, f u = true := by
  rw [exists_middle] at hflag ⊢
  cases h with
  | same hsame hown => rw [hsame, hown, hflag]
  | raised hraised hown => exact iff_of_true hraised (Or.inl hown)
  | lowered hlowered hbefore hown =>
    rw [hlowered, hown]
    refine iff_of_false Bool.false_ne_true fun hnone => hnone.elim Bool.false_ne_true fun hu => ?_
    obtain ⟨u, hmem, htrue⟩ := hu
    exact Bool.false_ne_true ((halone hbefore u hmem).symm.trans htrue)

section

variable (h : SystemOk ⟨env, before ++ t :: after⟩)
include h

/-- A task in `GrowMap` has the writer slot, so no other is there. -/
theorem SystemOk.alone (hgrowing : t.ledger.fGrowing = true)
    (u : Task) (hu : u ∈ before ++ after) : u.ledger.fGrowing = false := by
  have htasks := (forall_middle TaskOk).mp h.tasks
  by_contra hnot
  have hown := (htasks.1.ledger.growing hgrowing).1
  have hother := ((htasks.2 u hu).ledger.growing (Bool.not_eq_false _ ▸ hnot)).1
  have hsum := h.writers
  have hle : writersOf u.ledger ≤ ((before ++ after).map fun t => writersOf t.ledger).sum :=
    single_le_sum (fun _ _ => Nat.zero_le _) _ (List.mem_map_of_mem hu)
  have hbound : env.fWriterActive.toNat ≤ 1 := Bool.toNat_le _
  dsimp only at hsum
  rw [sum_middle] at hsum
  unfold writersOf at hsum hle
  omega

/-- One action of one task. -/
theorem SystemOk.act {x : Action} {r : x.Answer}
    (hallowed : actionAllowed t.ledger x) (henv : env.perform x r = some env')
    (hledger : t'.ledger = t.ledger.note x r) (hok : TaskOk t') :
    SystemOk ⟨env', before ++ t' :: after⟩ := by
  have htasks := (forall_middle TaskOk).mp h.tasks
  have hleases := h.leases
  have hwriters := h.writers
  dsimp only at hleases hwriters
  rw [sum_middle] at hleases hwriters
  obtain ⟨hl, hw, hpending, hresizing, hdrained⟩ := perform_effect htasks.1.ledger hallowed henv
    (by omega) (by omega)
  rw [← hledger] at hl hw hpending hresizing
  refine ⟨(forall_middle TaskOk).mpr ⟨hok, htasks.2⟩, ?_, ?_, ?_, ?_, hdrained h.drained⟩
  · dsimp only
    rw [sum_middle]
    omega
  · dsimp only
    rw [sum_middle]
    omega
  · exact hpending.exists (fun t => t.ledger.fGrowing) h.alone h.pending
  · refine hresizing.exists (fun t => t.ledger.fResizing) (fun htrue u hu => ?_) h.resizing
    by_contra hnot
    have hother := (htasks.2 u hu).ledger.resizing (Bool.not_eq_false _ ▸ hnot)
    have hquiet := h.alone (htasks.1.ledger.resizing htrue) u hu
    exact Bool.false_ne_true (hquiet.symm.trans hother)

/-- A change of phase alone. -/
theorem SystemOk.turn (hledger : t'.ledger = t.ledger)
    (hok : TaskOk t') : SystemOk ⟨env, before ++ t' :: after⟩ := by
  have htasks := (forall_middle TaskOk).mp h.tasks
  have hleases := h.leases
  have hwriters := h.writers
  have hpending := h.pending
  have hresizing := h.resizing
  rw [sum_middle] at hleases hwriters
  rw [exists_middle] at hpending hresizing
  refine ⟨(forall_middle TaskOk).mpr ⟨hok, htasks.2⟩, ?_, ?_, ?_, ?_, h.drained⟩
  · rw [sum_middle, hledger]
    exact hleases
  · rw [sum_middle, hledger]
    exact hwriters
  · rw [exists_middle, hledger]
    exact hpending
  · rw [exists_middle, hledger]
    exact hresizing

end

/-- A new task, which holds nothing. -/
theorem SystemOk.start {tasks : List Task} {phase : Phoenixcoin.Program.Gate.Phase}
    (h : SystemOk ⟨env, tasks⟩)
    (hok : TaskOk ⟨{}, phase⟩) : SystemOk ⟨env, tasks ++ [⟨{}, phase⟩]⟩ := by
  have hnew (P : Task → Prop) (hnot : ¬ P ⟨{}, phase⟩) :
      (∃ u ∈ tasks ++ [⟨{}, phase⟩], P u) ↔ ∃ u ∈ tasks, P u := by
    rw [exists_middle, or_iff_right hnot, append_nil]
  refine ⟨(forall_middle TaskOk).mpr ⟨hok, ?_⟩, ?_, ?_, ?_, ?_, h.drained⟩
  · rw [append_nil]
    exact h.tasks
  · rw [sum_middle, append_nil]
    exact h.leases.trans (Nat.zero_add _).symm
  · rw [sum_middle, append_nil]
    exact h.writers.trans (Nat.zero_add _).symm
  · exact h.pending.trans (hnew _ Bool.false_ne_true).symm
  · exact h.resizing.trans (hnew _ Bool.false_ne_true).symm

theorem ledgerOk_new : LedgerOk {} :=
  ⟨⟨le_rfl, Nat.zero_le 1⟩, ⟨le_rfl, Nat.zero_le 1⟩, nofun, nofun, nofun⟩

variable {S S' : System}

theorem SystemOk.step {label : Option (Σ x : Action, x.Answer)} (h : SystemOk S)
    (hstep : S.Step label S') : SystemOk S' := by
  cases hstep with
  | start env tasks call p hcall =>
    have hok : TaskOk ⟨{}, .running call p⟩ := ⟨ledgerOk_new, start_safe hcall⟩
    exact h.start hok
  | call env before after l last call s p hcall =>
    have htask := ((forall_middle TaskOk).mp h.tasks).1
    exact h.turn rfl ⟨htask.ledger, on_safe hcall htask.phase.1⟩
  | act env env' before after l call p p' x r hstep henv =>
    have htask := ((forall_middle TaskOk).mp h.tasks).1
    obtain ⟨hallowed, hsafe⟩ := Prog.Safe.act htask.phase hstep
    exact h.act hallowed henv rfl ⟨htask.ledger.note hallowed, hsafe⟩
  | round env before after l call p p' hstep =>
    have htask := ((forall_middle TaskOk).mp h.tasks).1
    exact h.turn rfl ⟨htask.ledger, Prog.Safe.round htask.phase hstep⟩
  | done env before after l call result =>
    have htask := ((forall_middle TaskOk).mp h.tasks).1
    cases result with
    | some s => exact h.turn rfl ⟨htask.ledger, htask.phase⟩
    | none => exact h.turn rfl ⟨htask.ledger, htask.phase⟩

theorem SystemOk.of_reachable (h : S.Reachable) : SystemOk S := by
  induction h with
  | start =>
    have hnone (P : Task → Prop) : ¬ ∃ t ∈ ([] : List Task), P t := fun h => by
      obtain ⟨t, hmem, -⟩ := h
      exact absurd hmem not_mem_nil
    exact ⟨fun t hmem => absurd hmem not_mem_nil, rfl, rfl,
      iff_of_false Bool.false_ne_true (hnone _), iff_of_false Bool.false_ne_true (hnone _),
      fun htrue => absurd htrue Bool.false_ne_true⟩
  | step _ hstep ih => exact ih.step hstep

/-- Only a task in `GrowMap`, past its wait, resizes the map. -/
theorem resizing_of_setMapsize {r : Action.setMapsize.Answer} (h : SystemOk S)
    (hstep : S.Step (some ⟨.setMapsize, r⟩) S') : S.env.fResizing = true := by
  cases hstep with
  | act env env' before after l call p p' _ _ hact henv =>
    have htask := ((forall_middle TaskOk).mp h.tasks).1
    refine h.resizing.mpr ((exists_middle _).mpr (Or.inl ?_))
    exact (Prog.Safe.act htask.phase hact).1

theorem not_pending_of_acquire {r : Action.acquireTransactionLease.Answer}
    (hstep : S.Step (some ⟨.acquireTransactionLease, r⟩) S') : S.env.fResizePending = false := by
  cases hstep with
  | act env env' before after l call p p' _ _ hact henv =>
    dsimp only [CLMDBEnv.perform] at henv
    split at henv
    · cases henv
    · next hopen => exact Bool.eq_false_iff.mpr fun hpending => hopen (Or.inr hpending)

end Systems

/-- The environment resizes its map only while no transaction holds a lease or is open in LMDB,
and grants no lease while a call of `GrowMap` is past its checks. What a transaction acquires it
releases once: before it acquires again, and at the latest in `Commit`, `Abort`, the destructor
or a begin that fails. -/
theorem resizeGate_safe {S : System} (h : S.Reachable) :
    (∀ r S', S.Step (some ⟨.setMapsize, r⟩) S' → ∀ t ∈ S.tasks,
      t.ledger.leaseAcquired = t.ledger.leaseReleased ∧ t.ledger.fTxn = false) ∧
    (∀ r S', S.Step (some ⟨.acquireTransactionLease, r⟩) S' →
      ∀ t ∈ S.tasks, t.ledger.fGrowing = false) ∧
    (∀ t ∈ S.tasks,
      (t.ledger.leaseReleased ≤ t.ledger.leaseAcquired ∧
        t.ledger.leaseAcquired ≤ t.ledger.leaseReleased + 1) ∧
      (t.ledger.writerReleased ≤ t.ledger.writerAcquired ∧
        t.ledger.writerAcquired ≤ t.ledger.writerReleased + 1)) ∧
    (∀ t ∈ S.tasks, ∀ last s, t.phase = .idle last s →
      t.ledger.leaseAcquired = t.ledger.leaseReleased + s.fLeaseHeld.toNat ∧
        t.ledger.writerAcquired = t.ledger.writerReleased + s.fWriterHeld.toNat) ∧
    (∀ t ∈ S.tasks, (t.phase = .gone ∨ ∃ s, t.phase = .idle .commit s ∨ t.phase = .idle .abort s) →
      t.ledger.leaseAcquired = t.ledger.leaseReleased ∧
        t.ledger.writerAcquired = t.ledger.writerReleased) := by
  have hok := SystemOk.of_reachable h
  refine ⟨fun r S' hstep t ht => ?_, fun r S' hstep t ht => ?_, fun t ht => ?_,
    fun t ht last s hidle => ?_, fun t ht hends => ?_⟩
  · have hzero := hok.drained (resizing_of_setMapsize hok hstep)
    rw [hok.leases] at hzero
    have hnone : leasesOf t.ledger = 0 :=
      sum_eq_zero_iff.mp hzero _ (List.mem_map_of_mem ht)
    have hledger := (hok.tasks t ht).ledger
    have hfree : t.ledger.leaseAcquired = t.ledger.leaseReleased := by
      have hbounds := hledger.lease
      unfold leasesOf at hnone
      omega
    refine ⟨hfree, Bool.eq_false_iff.mpr fun hopen => ?_⟩
    have hheld := hledger.txn hopen
    omega
  · by_contra hgrowing
    have hpending := hok.pending.mpr ⟨t, ht, Bool.not_eq_false _ ▸ hgrowing⟩
    rw [not_pending_of_acquire hstep] at hpending
    cases hpending
  · have hledger := (hok.tasks t ht).ledger
    exact ⟨hledger.lease, hledger.writer⟩
  · have hphase := (hok.tasks t ht).phase
    rw [hidle] at hphase
    exact ⟨hphase.1.lease, hphase.1.writer⟩
  · have hphase := (hok.tasks t ht).phase
    have hsettled : Settled t.ledger := by
      rcases hends with hgone | ⟨s, hcommit | habort⟩
      · rw [hgone] at hphase
        exact hphase
      · rw [hcommit] at hphase
        exact hphase.2 (Or.inl rfl)
      · rw [habort] at hphase
        exact hphase.2 (Or.inr rfl)
    exact ⟨hsettled.lease, hsettled.writer⟩

/-! ## A sample -/

/-- A call of `GrowMap` that has not done anything yet. -/
def sampleGrow : GateProgram (Option CLMDBTransaction) := do
  if ← perform .tryAcquireWriter then
    let _ ← growMap
    perform .releaseWriter
  return none

/-- The rest of the call, when the wait of `GrowMap` is over. -/
def sampleDrained : GateProgram (Option CLMDBTransaction) :=
  Prog.act .setMapsize fun _ => Prog.act .growEnd fun _ => Prog.act .releaseWriter fun _ =>
    Prog.ret none

/-- A reader that is done. -/
def sampleReader : Task :=
  ⟨{ leaseAcquired := 1, leaseReleased := 1 }, .idle .abort
    { txn := false, fReadOnly := true, fAborted := true, fWriterHeld := false,
      fLeaseHeld := false }⟩

/-- One thread has held a transaction, the other one is in `GrowMap`, past its wait. -/
def sampleSystem : System where
  env := { fResizePending := true, fWriterActive := true, fResizing := true }
  tasks := [sampleReader, ⟨{ writerAcquired := 1, fGrowing := true, fResizing := true },
    .running .growMap sampleDrained⟩]

/-- The reader holds its lease when `GrowMap` passes its checks, and releases it then. -/
theorem sampleSystem_reachable : sampleSystem.Reachable := by
  have h1 := Reachable.start.step (Step.start {} [] (.beginTransaction true) _ rfl)
  have h2 := h1.step (Step.act _ _ [] [] _ _ _ _ .acquireTransactionLease ()
    (@Prog.Step.act Action Action.Answer _ .acquireTransactionLease _ ()) rfl)
  have h3 := h2.step (Step.act _ _ [] [] _ _ _ _ .txnBegin true
    (@Prog.Step.act Action Action.Answer _ .txnBegin _ true) rfl)
  have h4 := h3.step (Step.done _ [] [] _ _ _)
  have h5 := h4.step (Step.start _ _ .growMap sampleGrow rfl)
  have h6 := h5.step (Step.act _ _ [_] [] _ _ _ _ .tryAcquireWriter true
    (@Prog.Step.act Action Action.Answer _ .tryAcquireWriter _ true) rfl)
  have h7 := h6.step (Step.act _ _ [_] [] _ _ _ _ .growBegin true
    (@Prog.Step.act Action Action.Answer _ .growBegin _ true) rfl)
  have h8 := h7.step (Step.call _ [] [_] _ _ .abort _ _ rfl)
  have h9 := h8.step (Step.act _ _ [] [_] _ _ _ _ .txnAbort ()
    (@Prog.Step.act Action Action.Answer _ .txnAbort _ ()) rfl)
  have h10 := h9.step (Step.act _ _ [] [_] _ _ _ _ .releaseTransactionLease ()
    (@Prog.Step.act Action Action.Answer _ .releaseTransactionLease _ ()) rfl)
  have h11 := h10.step (Step.done _ [] [_] _ _ _)
  exact h11.step (Step.act _ _ [sampleReader] [] _ .growMap _ _ .growDrained ()
    (@Prog.Step.act Action Action.Answer _ .growDrained _ ()) rfl)

theorem resizeGate_safe_sampleSystem : ∃ r S', sampleSystem.Step (some ⟨.setMapsize, r⟩) S' ∧
    ∀ t ∈ sampleSystem.tasks,
      t.ledger.leaseAcquired = t.ledger.leaseReleased ∧ t.ledger.fTxn = false := by
  have hstep := Step.act sampleSystem.env sampleSystem.env [sampleReader] []
    { writerAcquired := 1, fGrowing := true, fResizing := true } .growMap sampleDrained _
    .setMapsize true (@Prog.Step.act Action Action.Answer _ .setMapsize _ true) rfl
  exact ⟨true, _, hstep, (resizeGate_safe sampleSystem_reachable).1 true _ hstep⟩

end Phoenixcoin.Analysis
