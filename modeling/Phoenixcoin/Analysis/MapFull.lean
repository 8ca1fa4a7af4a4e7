import Phoenixcoin.Lib.KeyValue
import Phoenixcoin.Lib.Run
import Phoenixcoin.Program.LmdbTransaction

/-!
# Recovery from a full map

`CLMDBTransaction` refines a transaction on a plain map: while no recovery fails, a full map
is not visible in any result nor in the committed records. When a recovery fails, nothing of
the transaction is committed and every later operation fails.

The argument rests on the log of mutations: replayed on the committed records it gives what
the current LMDB transaction sees.
-/

set_option autoImplicit false

namespace Phoenixcoin.Analysis

open Lib Lib.KeyValue Program CLMDBTransaction CLMDBEnv PlainTxn

def lmdbRule : KeyRule CDBKey := ⟨mdbPutAccepts, mdbGetAccepts⟩

/-- One operation on a `CLMDBTransaction`. -/
def execLmdb (outcomes : ℕ → MdbOutcome) (s : CLMDBTransaction) :
    Op CDBKey CDBValue → Result CDBValue × CLMDBTransaction
  | .write key value fOverwrite =>
    (.done (s.write outcomes key value fOverwrite).1, (s.write outcomes key value fOverwrite).2)
  | .erase key => (.done (s.erase outcomes key).1, (s.erase outcomes key).2)
  | .read key => (.value (s.read key), s)
  | .commit => (.done (s.commit outcomes).1, (s.commit outcomes).2)
  | .abort => (.aborted, s.abort)

def OnlyMapFull (outcomes : ℕ → MdbOutcome) : Prop :=
  ∀ n fTxnError, outcomes n ≠ .failed fTxnError

def applyMutation (working : DbContents) : Mutation → Option DbContents
  | .write key value fOverwrite => put lmdbRule key value fOverwrite working
  | .erase key => del lmdbRule key working

def mutationOp : Mutation → Op CDBKey CDBValue
  | .write key value fOverwrite => .write key value fOverwrite
  | .erase key => .erase key

/-! ## Growing the map -/

theorem alignDown_le (nValue nAlignment : ℕ) : alignDown nValue nAlignment ≤ nValue := by
  unfold alignDown
  split
  · exact Nat.div_mul_le_self nValue nAlignment
  · exact le_rfl

theorem le_alignDown {nValue nAlignment : ℕ} (h : 0 < alignDown nValue nAlignment) :
    nAlignment ≤ alignDown nValue nAlignment := by
  unfold alignDown at h ⊢
  split at h
  · next hpos =>
    rw [if_pos hpos]
    exact Nat.le_mul_of_pos_left nAlignment (Nat.pos_of_mul_pos_right h)
  · omega

variable {env : CLMDBEnv} {s : CLMDBTransaction} {base working : DbContents}
  {p : PlainTxn CDBKey CDBValue}

/-- The size `GrowMap` asks for is larger than the current one and within the maximum. -/
theorem growTarget_spec {nTarget : ℕ} (hpage : env.nPageSize ≠ 0)
    (h : env.growTarget = some nTarget) :
    env.nMapSize < nTarget ∧ nTarget ≤ alignDown env.nMaxMapSize env.nPageSize := by
  have hwhole : 0 < alignDown env.nMaxMapSize env.nPageSize → env.nPageSize ≤ _ :=
    le_alignDown
  unfold growTarget at h
  dsimp only at h
  generalize alignDown env.nMaxMapSize env.nPageSize = nMax at h hwhole ⊢
  split at h
  · contradiction
  · next hroom =>
    have hlt : env.nMapSize < nMax := by
      by_contra hge
      rw [max_eq_right (not_lt.mp hge)] at hroom
      exact hroom le_rfl
    rw [max_eq_left hlt.le] at h
    generalize hdouble : (if env.nMapSize > nMax / 2 then nMax else env.nMapSize * 2) = nDouble at h
    have halign : alignDown nDouble env.nPageSize ≤ nMax := by
      refine (alignDown_le _ _).trans ?_
      rw [← hdouble]
      split <;> omega
    split at h
    · split at h <;> cases h <;> omega
    · cases h
      exact ⟨by omega, halign⟩

/-- What `GrowMap` and the calls of LMDB leave alone. -/
structure SameStore (env env' : CLMDBEnv) : Prop where
  contents : env'.contents = env.contents
  maxSize : env'.nMaxMapSize = env.nMaxMapSize
  pageSize : env'.nPageSize = env.nPageSize
  logs : env'.nMapFullLogs = env.nMapFullLogs

theorem SameStore.refl (env : CLMDBEnv) : SameStore env env := ⟨rfl, rfl, rfl, rfl⟩

variable {outcomes : ℕ → MdbOutcome}

variable {env' : CLMDBEnv} {working' : DbContents} {m : Mutation}

/-- A successful `GrowMap` sets the size for which it asks. -/
theorem growMap_eq_true (h : env.growMap outcomes = (true, env')) :
    ∃ nTarget, env.nPageSize ≠ 0 ∧ env.growTarget = some nTarget ∧
      env' = { env.tick.tick with nMapSize := nTarget } := by
  unfold growMap at h
  split at h
  · cases h
  · split at h
    · cases h
    · dsimp only at h
      split at h
      · cases h
      · next hpage =>
        split at h
        · cases h
        · next nTarget htarget =>
          split at h
          · cases h
          · cases h
            exact ⟨nTarget, hpage, htarget, rfl⟩

/-- A successful `GrowMap` uses up room. -/
theorem growMap_true (h : env.growMap outcomes = (true, env')) :
    SameStore env env' ∧ env'.room < env.room := by
  obtain ⟨nTarget, hpage, htarget, rfl⟩ := growMap_eq_true h
  obtain ⟨hlt, hle⟩ := growTarget_spec hpage htarget
  refine ⟨⟨rfl, rfl, rfl, rfl⟩, ?_⟩
  change alignDown env.nMaxMapSize env.nPageSize - nTarget <
    alignDown env.nMaxMapSize env.nPageSize - env.nMapSize
  omega

theorem growMap_sameStore (env : CLMDBEnv) : SameStore env (env.growMap outcomes).2 := by
  unfold growMap
  split
  · exact SameStore.refl env
  · split
    · exact ⟨rfl, rfl, rfl, rfl⟩
    · dsimp only
      split
      · exact ⟨rfl, rfl, rfl, rfl⟩
      · split
        · exact ⟨rfl, rfl, rfl, rfl⟩
        · split <;> exact ⟨rfl, rfl, rfl, rfl⟩

/-! ## One mutation -/

/-- How a call of LMDB for a mutation can end, on a transaction that sees `working`. -/
inductive CallEnds (outcome : MdbOutcome) (m : Mutation) (working : DbContents) (fRdOnly : Bool) :
    MdbCode × MdbTxn → Prop where
  | applied {ret : MdbCode} {working' : DbContents} (hret : m.applied ret = true)
      (happly : applyMutation working m = some working') :
      CallEnds outcome m working fRdOnly (ret, ⟨working', false, fRdOnly⟩)
  | mapFull (hret : m.applied .mapFull = false) :
      CallEnds outcome m working fRdOnly (.mapFull, ⟨working, true, fRdOnly⟩)
  | refused {ret : MdbCode} (hret : m.applied ret = false) (hfull : ret ≠ .mapFull)
      (happly : applyMutation working m = none) :
      CallEnds outcome m working fRdOnly (ret, ⟨working, false, fRdOnly⟩)
  | failed {ret : MdbCode} {fTxnError : Bool} (hret : m.applied ret = false)
      (hfull : ret ≠ .mapFull) (houtcome : outcome = .failed fTxnError) :
      CallEnds outcome m working fRdOnly (ret, ⟨working, fTxnError, fRdOnly⟩)

theorem call_ends (outcome : MdbOutcome) (m : Mutation) (working : DbContents) (fRdOnly : Bool) :
    CallEnds outcome m working fRdOnly (m.call outcome ⟨working, false, fRdOnly⟩) := by
  cases m with
  | write key value fOverwrite =>
    cases outcome with
    | mapFull => exact .mapFull rfl
    | failed fTxnError => exact .failed rfl (by decide) rfl
    | success =>
      simp only [Mutation.call, mdbPut, Bool.false_eq_true, if_false]
      split
      · next hrefused =>
        exact .refused rfl (by decide) (put_refused (Bool.not_eq_true _ ▸ hrefused) value _ _)
      · next haccept =>
        split
        · next hexists => exact .refused rfl (by decide) (put_exists hexists)
        · next hexists => exact .applied rfl (put_applied (not_not.mp haccept) hexists)
  | erase key =>
    cases outcome with
    | mapFull => exact .mapFull rfl
    | failed fTxnError => exact .failed rfl (by decide) rfl
    | success =>
      simp only [Mutation.call, mdbDel, Bool.false_eq_true, if_false]
      split
      · next hrefused => exact .refused rfl (by decide) (if_neg hrefused)
      · next haccept =>
        have happly : applyMutation working (.erase key) = some (working.erase key) :=
          if_pos (not_not.mp haccept)
        split
        · exact .applied rfl happly
        · next hmem =>
          -- erasing a key without a record leaves the records alone
          refine .applied rfl ?_
          rw [happly, Table.erase_of_lookup_none (Finmap.lookup_eq_none.mpr hmem)]

/-! ## Replay and recovery -/

/-- The replay leaves the store alone, and when it succeeds the transaction sees what the log
gives on the plain map. -/
theorem replayMutations_spec (mutations : List Mutation) :
    ∀ {working : DbContents} {env : CLMDBEnv},
      mutations.foldlM applyMutation working = some working' →
      ∀ {ret : MdbCode} {txn : MdbTxn} {env' : CLMDBEnv},
      replayMutations outcomes mutations ⟨working, false, false⟩ env =
          (ret, txn, env') →
        SameStore env env' ∧ env'.room = env.room ∧
          (ret = .success → txn = ⟨working', false, false⟩) := by
  induction mutations with
  | nil =>
    intro working env hlog ret txn env' h
    cases hlog
    cases h
    exact ⟨SameStore.refl env, rfl, fun _ => rfl⟩
  | cons m mutations ih =>
    intro working env hlog ret txn env' h
    obtain ⟨mid, hmid, hrest⟩ := foldlM_cons_eq_some.mp hlog
    have hends := call_ends (outcomes env.nCalls) m working false
    unfold replayMutations at h
    generalize m.call (outcomes env.nCalls) ⟨working, false, false⟩ = r at h hends
    cases hends with
    | applied hret happly =>
      rw [happly] at hmid
      cases hmid
      dsimp only at h
      rw [if_pos hret] at h
      obtain ⟨hsame, hroom, htxn⟩ := ih hrest h
      exact ⟨⟨hsame.contents, hsame.maxSize, hsame.pageSize, hsame.logs⟩, hroom, htxn⟩
    | mapFull hret =>
      dsimp only at h
      rw [hret] at h
      cases h
      exact ⟨⟨rfl, rfl, rfl, rfl⟩, rfl, fun hs => by contradiction⟩
    | refused hret hfull happly =>
      rw [happly] at hmid
      contradiction
    | failed hret hfull houtcome =>
      dsimp only at h
      rw [hret] at h
      cases h
      refine ⟨⟨rfl, rfl, rfl, rfl⟩, rfl, fun hs => ?_⟩
      rw [hs] at hret
      cases m <;> contradiction

/-- A write transaction whose log, replayed on the committed records, gives `working`. -/
structure Recoverable (s : CLMDBTransaction) (base working : DbContents) : Prop where
  contents : s.env.contents = base
  writer : s.fWriterHeld = true
  iterators : s.nActiveIterators = 0
  notReadOnly : s.fReadOnly = false
  replays : s.mutations.foldlM applyMutation base = some working

/-- A transaction that is gone, or that LMDB will not let do anything more. -/
def Dead (s : CLMDBTransaction) : Prop :=
  ∀ txn, s.txn = some txn → txn.fError = true ∧ txn.fRdOnly = false

theorem dead_of_none (h : s.txn = none) : Dead s := by
  intro txn htxn
  rw [h] at htxn
  contradiction

/-- How a recovery ends: with a transaction that sees what the old one saw, or for good. -/
inductive RecoverEnds (s : CLMDBTransaction) (base working : DbContents) :
    Bool × CLMDBTransaction → Prop where
  | recovered {s' : CLMDBTransaction} (htxn : s'.txn = some ⟨working, false, false⟩)
      (hkeep : Recoverable s' base working) (hroom : s'.env.room < s.env.room)
      (hlogs : s'.env.nMapFullLogs = s.env.nMapFullLogs) :
      RecoverEnds s base working (true, s')
  | gaveUp {s' : CLMDBTransaction} (hdead : Dead s') (hcontents : s'.env.contents = base)
      (hlogs : s.env.nMapFullLogs ≤ s'.env.nMapFullLogs) :
      RecoverEnds s base working (false, s')

theorem recoverLoop_ends (fuel : ℕ) :
    ∀ {s : CLMDBTransaction}, s.env.room < fuel → Recoverable s base working →
      RecoverEnds s base working (s.recoverLoop outcomes fuel) := by
  induction fuel with
  | zero =>
    intro s hfuel _
    exact absurd hfuel (Nat.not_lt_zero _)
  | succ fuel ih =>
    intro s hfuel hs
    have hsame : SameStore s.env (s.env.growMap outcomes).2 := growMap_sameStore s.env
    unfold recoverLoop
    dsimp only
    cases hgrow : s.env.growMap outcomes with
    | mk fGrown env =>
    rw [hgrow] at hsame
    cases fGrown with
    | false =>
      refine .gaveUp (dead_of_none rfl) (hsame.contents.trans hs.contents) ?_
      exact hsame.logs ▸ Nat.le_succ _
    | true =>
      obtain ⟨-, hroom⟩ := growMap_true hgrow
      unfold mdbTxnBegin
      by_cases hbegin : outcomes env.nCalls ≠ .success
      · rw [if_pos hbegin]
        exact .gaveUp (dead_of_none rfl) (hsame.contents.trans hs.contents) hsame.logs.ge
      · rw [if_neg hbegin]
        dsimp only
        have hcontents : env.contents = base := hsame.contents.trans hs.contents
        rw [hcontents]
        cases hreplay : replayMutations outcomes s.mutations
            ⟨base, false, false⟩ env.tick with
        | mk ret rest =>
        obtain ⟨txn, env'⟩ := rest
        obtain ⟨hsame', hroom', htxn⟩ := replayMutations_spec s.mutations hs.replays hreplay
        have hcontents' : env'.contents = base := hsame'.contents.trans hcontents
        have hlogs' : env'.nMapFullLogs = s.env.nMapFullLogs := hsame'.logs.trans hsame.logs
        have hless : env'.room < s.env.room := hroom'.trans_lt hroom
        cases ret with
        | success =>
          exact .recovered (congrArg some (htxn rfl))
            ⟨hcontents', hs.writer, hs.iterators, hs.notReadOnly, hs.replays⟩ hless hlogs'
        | mapFull =>
          have hs' : Recoverable { s with txn := some txn, env := env', fLeaseHeld := true } base
              working :=
            ⟨hcontents', hs.writer, hs.iterators, hs.notReadOnly, hs.replays⟩
          have hrec := ih (Nat.lt_of_lt_of_le hless (Nat.le_of_lt_succ hfuel)) hs'
          dsimp only
          generalize recoverLoop outcomes fuel _ = r at hrec ⊢
          cases hrec with
          | recovered htxn' hkeep hroom'' hlogs'' =>
            exact .recovered htxn' hkeep (hroom''.trans hless) (hlogs''.trans hlogs')
          | gaveUp hdead hcontents'' hlogs'' =>
            exact .gaveUp hdead hcontents'' (hlogs'.ge.trans hlogs'')
        | notFound => exact .gaveUp (dead_of_none rfl) hcontents' hlogs'.ge
        | keyExist => exact .gaveUp (dead_of_none rfl) hcontents' hlogs'.ge
        | other => exact .gaveUp (dead_of_none rfl) hcontents' hlogs'.ge

theorem recoverFromMapFull_ends (hdead : Dead s) (hs : Recoverable s base working) :
    RecoverEnds s base working (s.recoverFromMapFull outcomes) := by
  unfold recoverFromMapFull
  split
  · exact .gaveUp hdead hs.contents le_rfl
  · split
    · exact .gaveUp hdead hs.contents le_rfl
    · exact recoverLoop_ends _ (Nat.lt_succ_self _) hs

/-! ## One operation -/

/-- An open transaction that sees `working` on the committed records `base`. -/
structure Active (s : CLMDBTransaction) (base working : DbContents) : Prop where
  txn : s.txn = some ⟨working, false, s.fReadOnly⟩
  contents : s.env.contents = base
  writer : s.fWriterHeld = !s.fReadOnly
  iterators : s.nActiveIterators = 0
  replays : s.mutations.foldlM applyMutation base = some working
  readOnly : s.fReadOnly = true → working = base

theorem Active.recoverable (h : Active s base working) (hro : s.fReadOnly = false) :
    Recoverable s base working :=
  ⟨h.contents, by rw [h.writer, hro]; rfl, h.iterators, hro, h.replays⟩

theorem Recoverable.active (h : Recoverable s base working)
    (htxn : s.txn = some ⟨working, false, false⟩) :
    Active s base working := by
  refine ⟨?_, h.contents, ?_, h.iterators, h.replays, fun hro => ?_⟩
  · rw [h.notReadOnly]
    exact htxn
  · rw [h.writer, h.notReadOnly]
    rfl
  · rw [h.notReadOnly] at hro
    contradiction

theorem Recoverable.record (h : Recoverable s base working)
    (happly : applyMutation working m = some working') :
    Recoverable (s.record m) base working' := by
  rw [CLMDBTransaction.record, h.notReadOnly, if_neg Bool.false_ne_true]
  refine ⟨h.contents, h.writer, h.iterators, rfl, ?_⟩
  rw [foldlM_append_eq_some]
  exact ⟨working, h.replays, foldlM_cons_eq_some.mpr ⟨working', happly, rfl⟩⟩

/-- How a write or an erase ends. -/
inductive MutateEnds (outcomes : ℕ → MdbOutcome) (s : CLMDBTransaction)
    (base working : DbContents) (m : Mutation) : Bool × CLMDBTransaction → Prop where
  | applied {s' : CLMDBTransaction} {working' : DbContents}
      (happly : applyMutation working m = some working') (hactive : Active s' base working')
      (hro : s'.fReadOnly = false) (hlogs : s'.env.nMapFullLogs = s.env.nMapFullLogs) :
      MutateEnds outcomes s base working m (true, s')
  | refused {s' : CLMDBTransaction} (happly : applyMutation working m = none)
      (hactive : Active s' base working) (hro : s'.fReadOnly = false)
      (hlogs : s'.env.nMapFullLogs = s.env.nMapFullLogs) :
      MutateEnds outcomes s base working m (false, s')
  | notRecovered {s' : CLMDBTransaction} (hdead : Dead s') (hcontents : s'.env.contents = base)
      (hlogs : s.env.nMapFullLogs < s'.env.nMapFullLogs) :
      MutateEnds outcomes s base working m (false, s')
  | failed {s' : CLMDBTransaction} (houtcomes : ¬ OnlyMapFull outcomes)
      (hphase : Active s' base working ∨ Dead s')
      (hlogs : s'.env.nMapFullLogs = s.env.nMapFullLogs) :
      MutateEnds outcomes s base working m (false, s')

theorem mutateLoop_ends (fuel : ℕ) :
    ∀ {s : CLMDBTransaction}, s.env.room < fuel → Recoverable s base working →
      s.txn = some ⟨working, false, false⟩ →
      MutateEnds outcomes s base working m (s.mutateLoop outcomes m fuel) := by
  induction fuel with
  | zero =>
    intro s hfuel _ _
    exact absurd hfuel (Nat.not_lt_zero _)
  | succ fuel ih =>
    intro s hfuel hs htxn
    have hends := call_ends (outcomes s.env.nCalls) m working false
    rw [mutateLoop, htxn]
    dsimp only
    generalize m.call (outcomes s.env.nCalls) ⟨working, false, false⟩ = r at hends ⊢
    cases hends with
    | @applied ret working' hret happly =>
      rw [if_pos hret]
      have hs' : Recoverable { s with txn := some ⟨working', false, false⟩, env := s.env.tick }
          base working :=
        ⟨hs.contents, hs.writer, hs.iterators, hs.notReadOnly, hs.replays⟩
      have hrecord := hs'.record happly
      refine .applied happly (hrecord.active ?_) hrecord.notReadOnly ?_
      · simp [record, hs.notReadOnly]
      · simp [record, hs.notReadOnly, tick]
    | mapFull hret =>
      rw [hret]
      have hs' : Recoverable { s with txn := some ⟨working, true, false⟩, env := s.env.tick }
          base working :=
        ⟨hs.contents, hs.writer, hs.iterators, hs.notReadOnly, hs.replays⟩
      have hdead : Dead { s with txn := some ⟨working, true, false⟩, env := s.env.tick } := by
        intro txn htxn
        cases htxn
        exact ⟨rfl, rfl⟩
      have hrecover : RecoverEnds _ base working (recoverFromMapFull outcomes
          { s with txn := some ⟨working, true, false⟩, env := s.env.tick }) :=
        recoverFromMapFull_ends hdead hs'
      generalize recoverFromMapFull outcomes _ = r at hrecover ⊢
      cases hrecover with
      | recovered htxn' hkeep hroom hlogs =>
        have hroom' := Nat.lt_of_lt_of_le hroom (Nat.le_of_lt_succ hfuel)
        have hrest := ih hroom' hkeep htxn'
        dsimp only
        generalize mutateLoop outcomes m fuel _ = r at hrest ⊢
        cases hrest with
        | applied happly hactive hro hlogs' =>
          exact .applied happly hactive hro (hlogs'.trans hlogs)
        | refused happly hactive hro hlogs' =>
          exact .refused happly hactive hro (hlogs'.trans hlogs)
        | notRecovered hdead hcontents hlogs' =>
          exact .notRecovered hdead hcontents (hlogs.symm.trans_lt hlogs')
        | failed houtcomes hphase hlogs' =>
          exact .failed houtcomes hphase (hlogs'.trans hlogs)
      | gaveUp hdead' hcontents hlogs =>
        exact .notRecovered hdead' hcontents (Nat.lt_succ_of_le hlogs)
    | refused hret hfull happly =>
      rw [hret, if_pos hfull]
      have hs' : Recoverable { s with txn := some ⟨working, false, false⟩, env := s.env.tick }
          base working :=
        ⟨hs.contents, hs.writer, hs.iterators, hs.notReadOnly, hs.replays⟩
      exact .refused happly (hs'.active rfl) hs.notReadOnly rfl
    | @failed ret fTxnError hret hfull houtcome =>
      rw [hret, if_pos hfull]
      have hs' : Recoverable { s with txn := some ⟨working, fTxnError, false⟩, env := s.env.tick }
          base working :=
        ⟨hs.contents, hs.writer, hs.iterators, hs.notReadOnly, hs.replays⟩
      refine .failed (fun honly => honly _ _ houtcome) ?_ rfl
      cases fTxnError with
      | false => exact Or.inl (hs'.active rfl)
      | true =>
        refine Or.inr fun txn htxn => ?_
        cases htxn
        exact ⟨rfl, rfl⟩

/-- How one call of `mdb_txn_commit` ends; the transaction is gone in any case. -/
inductive CommitTxnEnds (outcomes : ℕ → MdbOutcome) (base working : DbContents) :
    MdbCode × CLMDBTransaction → Prop where
  | committed {s' : CLMDBTransaction} (htxn : s'.txn = none)
      (hcontents : s'.env.contents = working) :
      CommitTxnEnds outcomes base working (.success, s')
  | mapFull {s' : CLMDBTransaction} (htxn : s'.txn = none)
      (hkeep : Recoverable s' base working) :
      CommitTxnEnds outcomes base working (.mapFull, s')
  | failed {s' : CLMDBTransaction} (htxn : s'.txn = none) (houtcomes : ¬ OnlyMapFull outcomes) :
      CommitTxnEnds outcomes base working (.other, s')

theorem commitTxn_ends (hs : Recoverable s base working) :
    CommitTxnEnds outcomes base working (s.commitTxn outcomes ⟨working, false, false⟩) := by
  unfold commitTxn mdbTxnCommit
  cases houtcome : outcomes s.env.nCalls with
  | success => exact .committed rfl rfl
  | mapFull =>
    exact .mapFull rfl ⟨hs.contents, hs.writer, hs.iterators, hs.notReadOnly, hs.replays⟩
  | failed fTxnError => exact .failed rfl fun honly => honly _ _ houtcome

/-- How the commit loop ends, with the code of the last commit. -/
inductive CommitEnds (outcomes : ℕ → MdbOutcome) (s : CLMDBTransaction)
    (base working : DbContents) : MdbCode × CLMDBTransaction → Prop where
  | committed {s' : CLMDBTransaction} (htxn : s'.txn = none)
      (hcontents : s'.env.contents = working)
      (hlogs : s'.env.nMapFullLogs = s.env.nMapFullLogs) :
      CommitEnds outcomes s base working (.success, s')
  | notRecovered {s' : CLMDBTransaction} (hdead : Dead s') (hcontents : s'.env.contents = base)
      (hlogs : s.env.nMapFullLogs ≤ s'.env.nMapFullLogs) :
      CommitEnds outcomes s base working (.mapFull, s')
  | failed {s' : CLMDBTransaction} (houtcomes : ¬ OnlyMapFull outcomes) (htxn : s'.txn = none)
      (hlogs : s'.env.nMapFullLogs = s.env.nMapFullLogs) :
      CommitEnds outcomes s base working (.other, s')

theorem CommitEnds.of_logs {s' : CLMDBTransaction} {r : MdbCode × CLMDBTransaction}
    (h : CommitEnds outcomes s' base working r) (hlogs : s'.env.nMapFullLogs = s.env.nMapFullLogs) :
    CommitEnds outcomes s base working r := by
  cases h with
  | committed htxn hcontents hlogs' => exact .committed htxn hcontents (hlogs'.trans hlogs)
  | notRecovered hdead hcontents hlogs' =>
    exact .notRecovered hdead hcontents (hlogs.ge.trans hlogs')
  | failed houtcomes htxn hlogs' => exact .failed houtcomes htxn (hlogs'.trans hlogs)

/-- A commit that is not short of space is the end of the loop. -/
theorem commitLoop_of_ne {ret : MdbCode} (h : ret ≠ .mapFull) (fuel : ℕ) (s : CLMDBTransaction) :
    s.commitLoop outcomes fuel ret = (ret, s) := by
  cases fuel with
  | zero => rfl
  | succ fuel =>
    rw [commitLoop, if_neg fun hc => h hc.1]

theorem commitLoop_ends (fuel : ℕ) :
    ∀ {s : CLMDBTransaction} {ret : MdbCode}, s.env.room < fuel →
      CommitTxnEnds outcomes base working (ret, s) →
      CommitEnds outcomes s base working (s.commitLoop outcomes fuel ret) := by
  induction fuel with
  | zero =>
    intro s ret hfuel _
    exact absurd hfuel (Nat.not_lt_zero _)
  | succ fuel ih =>
    intro s ret hfuel h
    cases h with
    | committed htxn hcontents =>
      exact .committed htxn hcontents rfl
    | failed htxn houtcomes =>
      exact .failed houtcomes htxn rfl
    | mapFull htxn hs =>
      unfold commitLoop
      rw [if_pos ⟨rfl, by rw [hs.notReadOnly]; exact Bool.false_ne_true⟩]
      have hrecover : RecoverEnds s base working (s.recoverFromMapFull outcomes) :=
        recoverFromMapFull_ends (dead_of_none htxn) hs
      generalize s.recoverFromMapFull outcomes = r at hrecover ⊢
      cases hrecover with
      | gaveUp hdead hcontents hlogs => exact .notRecovered hdead hcontents hlogs
      | @recovered s' htxn' hkeep hroom hlogs =>
        dsimp only
        rw [htxn']
        have hcommit : CommitTxnEnds outcomes base working _ := commitTxn_ends hkeep
        have hroom' := Nat.lt_of_lt_of_le hroom (Nat.le_of_lt_succ hfuel)
        exact CommitEnds.of_logs (ih hroom' hcommit) hlogs

theorem commitRetry_ends (h : Active s base working) : CommitEnds outcomes s base working
      (s.commitRetry outcomes ⟨working, false, s.fReadOnly⟩) := by
  cases hro : s.fReadOnly with
  | true =>
    exact .committed rfl (h.contents.trans (h.readOnly hro).symm) rfl
  | false =>
    have hcommit : CommitTxnEnds outcomes base working
        (s.commitTxn outcomes ⟨working, false, false⟩) := commitTxn_ends (h.recoverable hro)
    exact CommitEnds.of_logs (commitLoop_ends _ (Nat.lt_succ_self _) hcommit) rfl

/-! ## Runs -/

/-- The transaction stands as a transaction on a plain map does: both are open and see the
same records, or both have ended and leave the same records. -/
def SamePlain (s : CLMDBTransaction) (p : PlainTxn CDBKey CDBValue) : Prop :=
  (∃ working, p.working = some working ∧ p.fReadOnly = s.fReadOnly ∧ Active s p.contents working) ∨
    (p.working = none ∧ s.txn = none ∧ s.env.contents = p.contents)

/-- How an operation on an open transaction ends. -/
inductive ExecEnds (outcomes : ℕ → MdbOutcome) (s : CLMDBTransaction)
    (p : PlainTxn CDBKey CDBValue) (op : Op CDBKey CDBValue) :
    Result CDBValue × CLMDBTransaction → Prop where
  | plain {s' : CLMDBTransaction} (hsame : SamePlain s' (p.exec lmdbRule op).2)
      (hcontents : (p.exec lmdbRule op).2.working.isSome → s'.env.contents = p.contents)
      (hlogs : s'.env.nMapFullLogs = s.env.nMapFullLogs) :
      ExecEnds outcomes s p op ((p.exec lmdbRule op).1, s')
  | notRecovered {s' : CLMDBTransaction} {result : Result CDBValue} (hfails : result.Fails)
      (hdead : Dead s') (hcontents : s'.env.contents = p.contents)
      (hlogs : s.env.nMapFullLogs < s'.env.nMapFullLogs) :
      ExecEnds outcomes s p op (result, s')
  | failed {s' : CLMDBTransaction} {result : Result CDBValue}
      (houtcomes : ¬ OnlyMapFull outcomes)
      (hphase : (∃ working, Active s' p.contents working) ∨ Dead s')
      (hlogs : s'.env.nMapFullLogs = s.env.nMapFullLogs) :
      ExecEnds outcomes s p op (result, s')

/-- On a plain map an open write transaction carries out a mutation if the map allows it. -/
theorem exec_mutation (hopen : p.working = some working) (hro : p.fReadOnly = false) (m : Mutation)
    :
    p.exec lmdbRule (mutationOp m) = match applyMutation working m with
      | some working' => (.done true, { p with working := some working' })
      | none => (.done false, p) := by
  cases m with
  | write key value fOverwrite =>
    simp only [mutationOp, exec, hro, hopen, Bool.false_eq_true, if_false, Option.bind_some,
      applyMutation]
    cases put lmdbRule key value fOverwrite working <;> rfl
  | erase key =>
    simp only [mutationOp, exec, hro, hopen, Bool.false_eq_true, if_false, Option.bind_some,
      applyMutation]
    cases del lmdbRule key working <;> rfl

section

variable (hopen : p.working = some working) (hmode : p.fReadOnly = s.fReadOnly)
  (h : Active s p.contents working)
include hopen hmode h

theorem mutate_execEnds (m : Mutation) :
    ExecEnds outcomes s p (mutationOp m)
      (.done (s.mutate outcomes m).1, (s.mutate outcomes m).2) := by
  unfold mutate
  cases hro : s.fReadOnly with
  | true =>
    have hexec : p.exec lmdbRule (mutationOp m) = (.done false, p) := by
      cases m <;> simp [mutationOp, exec, hmode, hro]
    rw [if_pos (Or.inr rfl)]
    have hends : ExecEnds outcomes s p (mutationOp m) ((p.exec lmdbRule (mutationOp m)).1, s) := by
      refine .plain ?_ (fun _ => h.contents) rfl
      rw [hexec]
      exact Or.inl ⟨working, hopen, hmode, h⟩
    rwa [hexec] at hends
  | false =>
    have hexec := exec_mutation hopen (hmode.trans hro) m
    have htxn : s.txn = some ⟨working, false, false⟩ := by rw [h.txn, hro]
    rw [if_neg (by simp [htxn])]
    have hends : MutateEnds outcomes s p.contents working m _ :=
      mutateLoop_ends (s.env.room + 1) (Nat.lt_succ_self _) (h.recoverable hro) htxn
    generalize s.mutateLoop outcomes m (s.env.room + 1) = r at hends ⊢
    cases hends with
    | @applied s' working' happly hactive hro' hlogs =>
      rw [happly] at hexec
      have hends : ExecEnds outcomes s p (mutationOp m)
        ((p.exec lmdbRule (mutationOp m)).1, s') := by
        refine .plain ?_ (fun _ => hactive.contents) hlogs
        rw [hexec]
        exact Or.inl ⟨working', rfl, (hmode.trans hro).trans hro'.symm, hactive⟩
      rwa [hexec] at hends
    | @refused s' happly hactive hro' hlogs =>
      rw [happly] at hexec
      have hends : ExecEnds outcomes s p (mutationOp m)
        ((p.exec lmdbRule (mutationOp m)).1, s') := by
        refine .plain ?_ (fun _ => hactive.contents) hlogs
        rw [hexec]
        exact Or.inl ⟨working, hopen, (hmode.trans hro).trans hro'.symm, hactive⟩
      rwa [hexec] at hends
    | notRecovered hdead hcontents hlogs => exact .notRecovered rfl hdead hcontents hlogs
    | failed houtcomes hphase hlogs =>
      exact .failed houtcomes (hphase.imp_left fun hactive => ⟨_, hactive⟩) hlogs

theorem exec_ends (op : Op CDBKey CDBValue) :
    ExecEnds outcomes s p op (execLmdb outcomes s op) := by
  cases op with
  | write key value fOverwrite =>
    exact mutate_execEnds hopen hmode h (.write key value fOverwrite)
  | erase key => exact mutate_execEnds hopen hmode h (.erase key)
  | read key =>
    have hread : s.read key = p.working.bind fun working =>
          if lmdbRule.canGet key then working.lookup key else none := by
      rw [CLMDBTransaction.read, h.txn, hopen]
      rfl
    change ExecEnds outcomes s p (.read key) (.value (s.read key), s)
    rw [hread]
    exact .plain (Or.inl ⟨working, hopen, hmode, h⟩) (fun _ => h.contents) rfl
  | abort =>
    refine .plain (Or.inr ⟨rfl, rfl, h.contents⟩) (fun hsome => ?_) rfl
    cases hsome
  | commit =>
    have hexec : p.exec lmdbRule .commit =
        (.done true, { p with contents := working, working := none }) := by
      simp [exec, hopen]
    have hends : CommitEnds outcomes s p.contents working _ := commitRetry_ends h
    rw [execLmdb, CLMDBTransaction.commit, h.txn]
    dsimp only
    generalize s.commitRetry outcomes ⟨working, false, s.fReadOnly⟩ = r at hends ⊢
    cases hends with
    | @committed s' htxn hcontents hlogs =>
      have hends : ExecEnds outcomes s p .commit ((p.exec lmdbRule .commit).1, s'.release) := by
        refine .plain ?_ (fun hsome => ?_) hlogs
        · rw [hexec]
          exact Or.inr ⟨rfl, htxn, hcontents⟩
        · rw [hexec] at hsome
          contradiction
      rwa [hexec] at hends
    | notRecovered hdead hcontents hlogs =>
      exact .notRecovered rfl hdead hcontents (Nat.lt_succ_of_le hlogs)
    | failed houtcomes htxn hlogs => exact .failed houtcomes (Or.inr (dead_of_none htxn)) hlogs

end

theorem mutate_dead (h : Dead s) (m : Mutation) :
    (s.mutate outcomes m).1 = false ∧ Dead (s.mutate outcomes m).2 ∧
      (s.mutate outcomes m).2.env.contents = s.env.contents ∧
      (s.mutate outcomes m).2.env.nMapFullLogs = s.env.nMapFullLogs := by
  unfold mutate
  cases htxn : s.txn with
  | none => exact ⟨rfl, h, rfl, rfl⟩
  | some txn =>
    obtain ⟨herror, hro⟩ := h txn htxn
    have hcall : m.call (outcomes s.env.nCalls) txn = (.other, txn) := by
      cases m <;> simp [Mutation.call, mdbPut, mdbDel, herror]
    have happlied : m.applied .other = false := by cases m <;> rfl
    split
    · exact ⟨rfl, h, rfl, rfl⟩
    · rw [mutateLoop, htxn]
      dsimp only
      rw [hcall, happlied]
      refine ⟨rfl, fun txn' htxn' => ?_, rfl, rfl⟩
      cases htxn'
      exact ⟨herror, hro⟩

theorem exec_dead (h : Dead s) (op : Op CDBKey CDBValue) :
    (execLmdb outcomes s op).1.Fails ∧ Dead (execLmdb outcomes s op).2 ∧
      (execLmdb outcomes s op).2.env.contents = s.env.contents ∧
      (execLmdb outcomes s op).2.env.nMapFullLogs = s.env.nMapFullLogs := by
  cases op with
  | write key value fOverwrite => exact mutate_dead h (.write key value fOverwrite)
  | erase key => exact mutate_dead h (.erase key)
  | read key =>
    refine ⟨?_, h, rfl, rfl⟩
    change s.read key = none
    unfold CLMDBTransaction.read
    cases htxn : s.txn with
    | none => rfl
    | some txn => simp [mdbGet, (h txn htxn).1]
  | abort => exact ⟨trivial, dead_of_none rfl, rfl, rfl⟩
  | commit =>
    unfold execLmdb CLMDBTransaction.commit
    cases htxn : s.txn with
    | none => exact ⟨rfl, dead_of_none htxn, rfl, rfl⟩
    | some txn =>
      obtain ⟨herror, hro⟩ := h txn htxn
      have hcommit : s.commitTxn outcomes txn =
          (.other, { s with
            txn := none, env := { s.env.tick with contents := s.env.contents } }) := by
        simp [CLMDBTransaction.commitTxn, mdbTxnCommit, herror, hro]
      unfold CLMDBTransaction.commitRetry
      dsimp only
      rw [hcommit]
      exact ⟨rfl, dead_of_none rfl, rfl, rfl⟩

variable (ops : List (Op CDBKey CDBValue))

theorem run_dead :
    ∀ {s : CLMDBTransaction}, Dead s →
      (∀ result ∈ (run (execLmdb outcomes) s ops).1, result.Fails) ∧
        (run (execLmdb outcomes) s ops).2.env.contents = s.env.contents ∧
        (run (execLmdb outcomes) s ops).2.env.nMapFullLogs = s.env.nMapFullLogs := by
  induction ops with
  | nil =>
    intro s _
    exact ⟨by simp [run], rfl, rfl⟩
  | cons op ops ih =>
    intro s h
    obtain ⟨hfails, hdead, hcontents, hlogs⟩ : (execLmdb outcomes s op).1.Fails ∧ _ :=
      exec_dead h op
    obtain ⟨hfails', hcontents', hlogs'⟩ := ih hdead
    refine ⟨fun result hresult => ?_, hcontents'.trans hcontents, hlogs'.trans hlogs⟩
    rcases List.mem_cons.mp hresult with rfl | hresult
    · exact hfails
    · exact hfails' result hresult

/-- Open on the committed records `base`, or dead. -/
def Phase (base : DbContents) (s : CLMDBTransaction) : Prop :=
  (∃ working, Active s base working) ∨ Dead s

/-- An operation keeps the phase and logs nothing, unless a recovery fails in it; then the
operation fails, the transaction is dead and `base` is still committed. -/
theorem exec_phase (h : Phase base s) (op : Op CDBKey CDBValue) :
    (Phase base (execLmdb outcomes s op).2 ∧
        (execLmdb outcomes s op).2.env.nMapFullLogs = s.env.nMapFullLogs) ∨
      ((execLmdb outcomes s op).1.Fails ∧ Dead (execLmdb outcomes s op).2 ∧
        (execLmdb outcomes s op).2.env.contents = base ∧
        s.env.nMapFullLogs < (execLmdb outcomes s op).2.env.nMapFullLogs) := by
  rcases h with ⟨working, hactive⟩ | hdead
  · have hends : ExecEnds outcomes s ⟨base, some working, s.fReadOnly⟩ op _ :=
      exec_ends rfl rfl hactive op
    generalize execLmdb outcomes s op = r at hends ⊢
    cases hends with
    | plain hsame hcontents hlogs =>
      refine Or.inl ⟨?_, hlogs⟩
      rcases hsame with ⟨working', hopen, -, hactive'⟩ | ⟨-, htxn, -⟩
      · have hbase := hcontents (by rw [hopen]; rfl)
        rw [hactive'.contents] at hbase
        rw [hbase] at hactive'
        exact Or.inl ⟨working', hactive'⟩
      · exact Or.inr (dead_of_none htxn)
    | notRecovered hfails hdead hcontents hlogs => exact Or.inr ⟨hfails, hdead, hcontents, hlogs⟩
    | failed houtcomes hphase hlogs => exact Or.inl ⟨hphase, hlogs⟩
  · obtain ⟨-, hdead', -, hlogs⟩ : (execLmdb outcomes s op).1.Fails ∧ _ := exec_dead hdead op
    exact Or.inl ⟨Or.inr hdead', hlogs⟩

theorem run_phase (h : Phase base s) :
    Phase base (run (execLmdb outcomes) s ops).2 := by
  refine run_invariant (fun s op hs => ?_) ops s h
  rcases exec_phase hs op with ⟨hphase, -⟩ | ⟨-, hdead, -, -⟩
  · exact hphase
  · exact Or.inr hdead

/-- The number of log lines never goes down. -/
theorem run_logs_le :
    ∀ {s : CLMDBTransaction}, Phase base s →
      s.env.nMapFullLogs ≤ (run (execLmdb outcomes) s ops).2.env.nMapFullLogs := by
  induction ops with
  | nil => intro s _; exact le_rfl
  | cons op ops ih =>
    intro s h
    rcases exec_phase h op with ⟨hphase, hlogs⟩ | ⟨-, hdead, -, hlogs⟩
    · exact hlogs.ge.trans (ih hphase)
    · exact hlogs.le.trans (ih (Or.inr hdead))

theorem exec_samePlain (honly : OnlyMapFull outcomes) (h : SamePlain s p) (op : Op CDBKey CDBValue)
    (hlogs : (execLmdb outcomes s op).2.env.nMapFullLogs ≤ s.env.nMapFullLogs) :
    (execLmdb outcomes s op).1 = (p.exec lmdbRule op).1 ∧
      SamePlain (execLmdb outcomes s op).2 (p.exec lmdbRule op).2 := by
  rcases h with ⟨working, hopen, hmode, hactive⟩ | ⟨hclosed, htxn, hcontents⟩
  · have hends : ExecEnds outcomes s p op _ := exec_ends hopen hmode hactive op
    generalize execLmdb outcomes s op = r at hends hlogs ⊢
    cases hends with
    | plain hsame _ _ => exact ⟨rfl, hsame⟩
    | notRecovered _ _ _ hlogs' => exact absurd hlogs' (not_lt.mpr hlogs)
    | failed houtcomes _ _ => exact absurd honly houtcomes
  · cases op with
    | write key value fOverwrite =>
      have hexec : p.exec lmdbRule (.write key value fOverwrite) = (.done false, p) := by
        simp [exec, hclosed]
      rw [hexec]
      simp only [execLmdb, CLMDBTransaction.write, CLMDBTransaction.mutate, htxn]
      exact ⟨rfl, Or.inr ⟨hclosed, htxn, hcontents⟩⟩
    | erase key =>
      have hexec : p.exec lmdbRule (.erase key) = (.done false, p) := by
        simp [exec, hclosed]
      rw [hexec]
      simp only [execLmdb, CLMDBTransaction.erase, CLMDBTransaction.mutate, htxn]
      exact ⟨rfl, Or.inr ⟨hclosed, htxn, hcontents⟩⟩
    | read key =>
      refine ⟨?_, Or.inr ⟨hclosed, htxn, hcontents⟩⟩
      simp [execLmdb, exec, CLMDBTransaction.read, htxn, hclosed]
    | abort => exact ⟨rfl, Or.inr ⟨rfl, rfl, hcontents⟩⟩
    | commit =>
      simp only [execLmdb, exec, CLMDBTransaction.commit, htxn, hclosed]
      exact ⟨trivial, Or.inr ⟨hclosed, htxn, hcontents⟩⟩

theorem SamePlain.phase (h : SamePlain s p) : Phase p.contents s := by
  rcases h with ⟨working, -, -, hactive⟩ | ⟨-, htxn, -⟩
  · exact Or.inl ⟨working, hactive⟩
  · exact Or.inr (dead_of_none htxn)

theorem run_samePlain (honly : OnlyMapFull outcomes) (ops : List (Op CDBKey CDBValue)) :
    ∀ {s : CLMDBTransaction} {p : PlainTxn CDBKey CDBValue}, SamePlain s p →
      (run (execLmdb outcomes) s ops).2.env.nMapFullLogs ≤ s.env.nMapFullLogs →
      (run (execLmdb outcomes) s ops).1 = (run (exec lmdbRule) p ops).1 ∧
        SamePlain (run (execLmdb outcomes) s ops).2 (run (exec lmdbRule) p ops).2 := by
  induction ops with
  | nil => intro s p h _; exact ⟨rfl, h⟩
  | cons op ops ih =>
    intro s p h hlogs
    -- neither the first operation nor the rest has logged anything
    have hphase : Phase p.contents (execLmdb outcomes s op).2 := run_phase [op] h.phase
    have hfirst : s.env.nMapFullLogs ≤ (execLmdb outcomes s op).2.env.nMapFullLogs :=
      run_logs_le [op] h.phase
    have hrest : (execLmdb outcomes s op).2.env.nMapFullLogs ≤
        (run (execLmdb outcomes) (execLmdb outcomes s op).2 ops).2.env.nMapFullLogs :=
      run_logs_le ops hphase
    obtain ⟨hresult, hsame⟩ := exec_samePlain honly h op (hrest.trans hlogs)
    obtain ⟨hresults, hend⟩ := ih hsame (hlogs.trans hfirst)
    refine ⟨?_, hend⟩
    simp only [run]
    rw [hresult, hresults]

theorem SamePlain.contents (h : SamePlain s p) : s.env.contents = p.contents := by
  rcases h with ⟨working, -, -, hactive⟩ | ⟨-, -, hcontents⟩
  · exact hactive.contents
  · exact hcontents

theorem beginTransaction_samePlain (env : CLMDBEnv) (fReadOnly : Bool) :
    SamePlain (beginTransaction env fReadOnly)
      (begin env.contents fReadOnly) :=
  Or.inl ⟨env.contents, rfl, rfl, rfl, rfl, rfl, rfl, rfl, fun _ => rfl⟩

/-- Recovery from a full map is transparent. As long as no recovery fails, a transaction
gives the results of a plain map and commits the same records. If a recovery fails in some
operation, this operation and all later ones fail, and the committed records stay as they
were when the transaction began. -/
theorem mapFull_recovery_transparent (outcomes : ℕ → MdbOutcome) (env : CLMDBEnv)
    (fReadOnly : Bool) (ops : List (Op CDBKey CDBValue)) :
    (OnlyMapFull outcomes →
      (run (execLmdb outcomes) (.beginTransaction env fReadOnly) ops).2.env.nMapFullLogs =
        env.nMapFullLogs → (run (execLmdb outcomes) (.beginTransaction env fReadOnly) ops).1 =
          (run (exec lmdbRule) (.begin env.contents fReadOnly) ops).1 ∧
        (run (execLmdb outcomes) (.beginTransaction env fReadOnly) ops).2.env.contents =
          (run (exec lmdbRule) (.begin env.contents fReadOnly) ops).2.contents) ∧
    ∀ before op after, ops = before ++ op :: after →
      ∀ s, s = (run (execLmdb outcomes) (.beginTransaction env fReadOnly) before).2 →
      s.env.nMapFullLogs < (execLmdb outcomes s op).2.env.nMapFullLogs →
      (execLmdb outcomes s op).1.Fails ∧
        (∀ result ∈ (run (execLmdb outcomes) (execLmdb outcomes s op).2 after).1, result.Fails) ∧
        (run (execLmdb outcomes) (.beginTransaction env fReadOnly) ops).2.env.contents =
          env.contents := by
  have hbegin := beginTransaction_samePlain env fReadOnly
  refine ⟨fun honly hlogs => ?_, ?_⟩
  · obtain ⟨hresults, hsame⟩ := run_samePlain honly ops hbegin hlogs.le
    exact ⟨hresults, hsame.contents⟩
  · rintro before op after rfl s rfl hlogs
    have hphase : Phase env.contents
        (run (execLmdb outcomes) (.beginTransaction env fReadOnly) before).2 :=
      run_phase before hbegin.phase
    rcases exec_phase hphase op with ⟨-, hsame⟩ | ⟨hfails, hdead, hcontents, -⟩
    · exact absurd hlogs (not_lt.mpr hsame.le)
    · obtain ⟨hafter, hkept, -⟩ := run_dead after hdead
      refine ⟨hfails, hafter, ?_⟩
      rw [run_append]
      exact hkept.trans hcontents

/-- An empty environment of two pages that may grow to sixteen. -/
def sampleLmdbEnv (fAutoGrow : Bool) : CLMDBEnv where
  contents := ∅
  fOpen := true
  fReadOnly := false
  fAutoGrow := fAutoGrow
  nMaxMapSize := 65536
  nMapSize := 8192
  nPageSize := 4096
  nCalls := 0
  nMapFullLogs := 0

def fullAtFirst (n : ℕ) : MdbOutcome := if n = 0 then .mapFull else .success

theorem mapFull_recovery_transparent_example :
    (run (execLmdb fullAtFirst) (.beginTransaction (sampleLmdbEnv true) false)
        [.write [1] [2] true, .read [1], .commit]).1 =
        [.done true, .value (some [2]), .done true] ∧
      (run (execLmdb fullAtFirst) (.beginTransaction (sampleLmdbEnv false) false)
        [.write [1] [2] true, .write [3] [4] true, .commit]).2.env.contents = ∅ := by
  refine ⟨?_, ?_⟩
  · decide
  · obtain ⟨-, -, hcontents⟩ := (mapFull_recovery_transparent fullAtFirst (sampleLmdbEnv false)
      false [.write [1] [2] true, .write [3] [4] true, .commit]).2 [] (.write [1] [2] true)
      [.write [3] [4] true, .commit] rfl _ rfl (by decide)
    exact hcontents

end Phoenixcoin.Analysis
