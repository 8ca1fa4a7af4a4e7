import Phoenixcoin.Analysis.Scanning
import Phoenixcoin.Analysis.StoreSteps

/-!
# Migration copies everything or nothing

A migration writes all records of the Berkeley DB file in one LMDB transaction, so that it
commits either all of them or none; and a start that finds no marker either takes over all of
them or reports a failure. The inspection of the chain index takes a cursor error for the end
of the data.
-/

set_option autoImplicit false

namespace Phoenixcoin.Analysis

open Lib Lib.Crash Program Program.StoreProg List Option

variable {fFaults : Bool} {files : StoreFiles} {crash : StoreFiles → Prop}
  {base working : DbContents}

/-! ## One write and one commit -/

/-- A write transaction that sees `working` on the committed records `base`. -/
structure Writing (txn : CLMDBTransaction) (base working : DbContents) : Prop where
  active : Active txn base working
  notReadOnly : txn.fReadOnly = false

theorem beginTransaction_writing (files : StoreFiles) (sizes : MapSizes) :
    Writing (.beginTransaction (lmdbEnv files sizes) false) files.contents files.contents :=
  ⟨⟨rfl, rfl, rfl, rfl, rfl, fun h => absurd h Bool.false_ne_true⟩, rfl⟩

variable {txn : CLMDBTransaction} {key : CDBKey} {source : DbContents}
  {post : Bool → StoreFiles → Prop} {sizes : MapSizes}

theorem write_writing (h : Writing txn base working) (outcomes : ℕ → MdbOutcome) (key : CDBKey)
    (value : CDBValue) (hwritten : (txn.write outcomes key value true).1 = true) :
    Writing (txn.write outcomes key value true).2 base (working.insert key value) := by
  have htxn : txn.txn = some ⟨working, false, false⟩ := by
    rw [h.active.txn, h.notReadOnly]
  unfold CLMDBTransaction.write CLMDBTransaction.mutate at hwritten ⊢
  rw [if_neg (by simp [htxn, h.notReadOnly])] at hwritten ⊢
  have hends : MutateEnds outcomes txn base working (.write key value true) _ :=
    mutateLoop_ends (txn.env.room + 1) (Nat.lt_succ_self _)
      (h.active.recoverable h.notReadOnly) htxn
  generalize txn.mutateLoop outcomes (.write key value true) (txn.env.room + 1) = r
    at hends hwritten ⊢
  cases hends with
  | @applied txn' working' happly hactive hro =>
    have hput : working' = working.insert key value := by
      simp only [applyMutation, KeyValue.put, not_true_eq_false, false_and, if_false] at happly
      split at happly
      · contradiction
      · exact (Option.some.inj happly).symm
    rw [← hput]
    exact ⟨hactive, hro⟩
  | refused => contradiction
  | notRecovered => contradiction
  | failed => contradiction

theorem mdbTxnCommit_contents {outcome : MdbOutcome} {contents : DbContents} {txn : MdbTxn}
    (h : (mdbTxnCommit outcome contents txn).1 ≠ .success) :
    (mdbTxnCommit outcome contents txn).2 = contents := by
  unfold mdbTxnCommit at h ⊢
  split
  · rfl
  · next hro =>
    split
    · rfl
    · next herror =>
      rw [if_neg hro, if_neg herror] at h
      cases outcome with
      | success => exact absurd rfl h
      | mapFull => rfl
      | failed fTxnError => rfl

variable {outcomes : ℕ → MdbOutcome} {value : CDBValue} {fMarkerLMDB : Bool}

theorem commitTxn_contents {s : CLMDBTransaction} (h : s.env.contents = base) (txn : MdbTxn)
    (hret : (s.commitTxn outcomes txn).1 ≠ .success) :
    (s.commitTxn outcomes txn).2.env.contents = base := by
  rw [← h]
  exact mdbTxnCommit_contents hret

theorem commitLoop_contents (fuel : ℕ) :
    ∀ {s : CLMDBTransaction} {ret : MdbCode}, CommitTxnEnds outcomes base working (ret, s) →
      (ret ≠ .success → s.env.contents = base) → (s.commitLoop outcomes fuel ret).1 ≠ .success →
        (s.commitLoop outcomes fuel ret).2.env.contents = base := by
  induction fuel with
  | zero => exact fun _ hbase hret => hbase hret
  | succ fuel ih =>
    intro s ret hends hbase hret
    cases hends with
    | committed htxn hcontents =>
      exact absurd rfl hret
    | failed htxn houtcomes =>
      exact hbase (by decide)
    | mapFull htxn hs =>
      unfold CLMDBTransaction.commitLoop at hret ⊢
      rw [if_pos ⟨rfl, by rw [hs.notReadOnly]; exact Bool.false_ne_true⟩] at hret ⊢
      have hrecover : RecoverEnds s base working (s.recoverFromMapFull outcomes) :=
        recoverFromMapFull_ends (dead_of_none htxn) hs
      generalize s.recoverFromMapFull outcomes = r at hrecover hret ⊢
      cases hrecover with
      | gaveUp hdead hcontents hlogs => exact hcontents
      | @recovered s' htxn' hkeep hroom hlogs =>
        dsimp only at hret ⊢
        rw [htxn'] at hret ⊢
        exact ih (commitTxn_ends hkeep) (commitTxn_contents hkeep.contents _) hret

theorem commit_writing (h : Writing txn base working) (outcomes : ℕ → MdbOutcome) :
    ((txn.commit outcomes).1 = true → (txn.commit outcomes).2.env.contents = working) ∧
      ((txn.commit outcomes).1 = false → (txn.commit outcomes).2.env.contents = base) := by
  have htxn : txn.txn = some ⟨working, false, false⟩ := by
    rw [h.active.txn, h.notReadOnly]
  have hends : CommitEnds outcomes txn base working
      (txn.commitRetry outcomes ⟨working, false, false⟩) := by
    have hretry : CommitEnds outcomes txn base working _ := commitRetry_ends h.active
    rw [h.notReadOnly] at hretry
    exact hretry
  have hbase : (txn.commitRetry outcomes ⟨working, false, false⟩).1 ≠ .success →
      (txn.commitRetry outcomes ⟨working, false, false⟩).2.env.contents = base :=
    commitLoop_contents _ (commitTxn_ends (h.active.recoverable h.notReadOnly))
      (commitTxn_contents h.active.contents _)
  rw [CLMDBTransaction.commit, htxn]
  dsimp only
  generalize txn.commitRetry outcomes ⟨working, false, false⟩ = r at hends hbase ⊢
  cases hends with
  | committed htxn hcontents =>
    exact ⟨fun _ => hcontents, fun hf => absurd hf.symm Bool.false_ne_true⟩
  | notRecovered hdead hcontents =>
    exact ⟨fun hf => absurd hf Bool.false_ne_true, fun _ => hcontents⟩
  | failed houtcomes htxn =>
    have hother : MdbCode.other ≠ .success := by decide
    exact ⟨fun hf => absurd hf Bool.false_ne_true, fun _ => hbase hother⟩

/-! ## The copy -/

def insertAll (records : List Record) (contents : DbContents) : DbContents :=
  records.foldl (fun contents record => contents.insert record.1 record.2) contents

theorem lookup_insertAll_of_forall_ne (records : List Record) :
    ∀ {contents : DbContents}, (∀ record ∈ records, record.1 ≠ key) →
      (insertAll records contents).lookup key = contents.lookup key := by
  induction records with
  | nil => exact fun _ => rfl
  | cons record records ih =>
    intro contents hne
    rw [insertAll, foldl_cons]
    have hrest : (insertAll records (contents.insert record.1 record.2)).lookup key =
        (contents.insert record.1 record.2).lookup key :=
      ih fun r hr => hne r (mem_cons_of_mem _ hr)
    rw [insertAll] at hrest
    rw [hrest, Finmap.lookup_insert_of_ne _ (hne record mem_cons_self).symm]

theorem lookup_insertAll_of_mem (records : List Record) :
    ∀ {contents : DbContents}, (key, value) ∈ records →
      (∀ record ∈ records, record.1 = key → record.2 = value) →
      (insertAll records contents).lookup key = some value := by
  induction records with
  | nil => exact fun hmem => absurd hmem (not_mem_nil)
  | cons record records ih =>
    intro contents hmem hsame
    have hsame' : ∀ r ∈ records, r.1 = key → r.2 = value :=
      fun r hr => hsame r (mem_cons_of_mem _ hr)
    rw [insertAll, foldl_cons]
    by_cases hlater : (key, value) ∈ records
    · exact ih hlater hsame'
    · have hfirst : (key, value) = record := (mem_cons.mp hmem).resolve_right hlater
      have hne : ∀ r ∈ records, r.1 ≠ key := by
        intro r hr hkey
        refine hlater ?_
        rw [← hkey, ← hsame' r hr hkey]
        exact hr
      have hrest : (insertAll records (contents.insert record.1 record.2)).lookup key =
          (contents.insert record.1 record.2).lookup key :=
        lookup_insertAll_of_forall_ne records hne
      rw [insertAll] at hrest
      rw [hrest, ← hfirst, Finmap.lookup_insert]

theorem mem_sortedRecords {contents : DbContents} {record : Record} :
    record ∈ sortedRecords contents ↔ contents.lookup record.1 = some record.2 := by
  rw [sortedRecords, mem_filterMap]
  constructor
  · rintro ⟨key, -, hkey⟩
    obtain ⟨value, hvalue, rfl⟩ := map_eq_some_iff.mp hkey
    exact hvalue
  · intro hlookup
    have hmem : record.1 ∈ contents := Finmap.mem_iff.mpr ⟨record.2, hlookup⟩
    exact ⟨record.1, (Finset.mem_sort _).mpr (Finmap.mem_keys.mpr hmem), by rw [hlookup]; rfl⟩

/-- The records of a database, written over a part of themselves, are the database. -/
theorem insertAll_sortedRecords {contents : DbContents} (h : contents = ∅ ∨ contents = source) :
    insertAll (sortedRecords source) contents = source := by
  apply Finmap.ext_lookup
  intro key
  cases hlookup : source.lookup key with
  | some value =>
    refine lookup_insertAll_of_mem _ (mem_sortedRecords.mpr hlookup) fun record hrecord hkey => ?_
    have hvalue := mem_sortedRecords.mp hrecord
    rw [hkey, hlookup] at hvalue
    exact (Option.some.inj hvalue).symm
  | none =>
    rw [lookup_insertAll_of_forall_ne]
    · rcases h with rfl | rfl
      · exact Finmap.lookup_empty key
      · exact hlookup
    · rintro record hrecord rfl
      rw [mem_sortedRecords.mp hrecord] at hlookup
      contradiction

theorem writeTxn_wp {post : Bool × CLMDBTransaction → StoreFiles → Prop}
    (h : Writing txn base working)
    (hs : ∀ txn, Writing txn base (working.insert key value) → post (true, txn) files)
    (hf : ∀ txn, post (false, txn) files) (hc : fFaults = true → crash files) :
    wp (Allowed fFaults) (writeTxn txn key value true) post crash files := by
  have hwrite (outcomes : ℕ → MdbOutcome) : post (txn.write outcomes key value true) files := by
    have hwriting := write_writing h outcomes key value
    rcases hrun : txn.write outcomes key value true with ⟨_ | _, txn'⟩
    · exact hf txn'
    · rw [hrun] at hwriting
      exact hs txn' (hwriting rfl)
  refine wp_act fun c hallowed => ?_
  cases hending : c.ending with
  | success => exact hwrite c.mdb
  | failed => exact hwrite c.mdb
  | stops => exact hc (hallowed.faults (by rw [hending]; decide))

theorem copyWalletRecords_wp (records : List Record) (hc : fFaults = true → crash files) :
    ∀ {txn : CLMDBTransaction} {working : DbContents} {nRecords : ℕ}, Writing txn base working →
      wp (Allowed fFaults) (copyWalletRecords records txn nRecords) (fun copied files' =>
        files' = files ∧
          (copied.1 = true → Writing copied.2.1 base (insertAll records working))) crash files := by
  induction records with
  | nil =>
    intro txn working nRecords h
    exact wp_bind (cursorFails_wp (fun fails _ => wp_pure ⟨rfl, fun _ => h⟩) hc)
  | cons record records ih =>
    intro txn working nRecords h
    refine wp_bind (cursorFails_wp (fun fails _ => wp_ite (fun _ => ?_) fun _ => ?_) hc)
    · exact wp_pure ⟨rfl, fun hf => absurd hf Bool.false_ne_true⟩
    refine wp_bind (writeTxn_wp h (fun txn hwritten => ?_) (fun txn => ?_) hc)
    · refine wp_ite (fun _ => ?_) fun _ => ih hwritten
      exact wp_pure ⟨rfl, fun hf => absurd hf Bool.false_ne_true⟩
    · exact wp_pure ⟨rfl, fun hf => absurd hf Bool.false_ne_true⟩

theorem copyChainRecords_wp (records : List Record) (hc : fFaults = true → crash files) :
    ∀ {txn : CLMDBTransaction} {working : DbContents}, Writing txn base working →
      wp (Allowed fFaults) (copyChainRecords records txn) (fun copied files' =>
        files' = files ∧
          (copied.1 = true → Writing copied.2 base (insertAll records working))) crash files := by
  induction records with
  | nil =>
    intro txn working h
    exact wp_bind (cursorFails_wp (fun fails _ => wp_pure ⟨rfl, fun _ => h⟩) hc)
  | cons record records ih =>
    intro txn working h
    refine wp_bind (cursorFails_wp (fun fails _ => wp_ite (fun _ => ?_) fun _ => ?_) hc)
    · exact wp_pure ⟨rfl, fun hf => absurd hf Bool.false_ne_true⟩
    refine wp_bind (writeTxn_wp h (fun txn hwritten => ?_) (fun txn => ?_) hc)
    · exact wp_ite (fun hf => absurd rfl hf) fun _ => ih hwritten
    · exact wp_pure ⟨rfl, fun hf => absurd hf Bool.false_ne_true⟩

theorem verifyCount_wp {nRecords : ℕ} (h : ∀ ok, post ok files) (hc : fFaults = true → crash files)
    :
    wp (Allowed fFaults) (verifyCount txn nRecords) post crash files := by
  have hcount (fuel : ℕ) : ∀ (it : CLMDBIterator) (nStored : ℕ),
      wp (Allowed fFaults) (countStored fuel it nStored) (fun _ files' => files' = files) crash
        files := by
    induction fuel with
    | zero => exact fun it nStored => wp_pure rfl
    | succ fuel ih =>
      intro it nStored
      exact wp_ite (fun _ => wp_bind (cursorFails_wp (fun fails _ => ih _ _) hc))
        fun _ => wp_pure rfl
  refine wp_bind (wp_bind (cursorFails_wp (fun fails _ => wp_pure ?_) hc))
  refine wp_bind (cursorFails_wp (fun fails _ => ?_) hc)
  refine wp_seq (hcount _ _ _) ?_
  rintro ⟨it, nStored⟩ _ rfl
  exact wp_pure (h _)

/-- A commit puts the records that the transaction sees in place, or does nothing. -/
theorem commitTxn_wp (h : Writing txn files.contents working) (hmain : (files.dirs .main).isSome)
    (hs : ∀ dir, Whole working dir ∨ dir = files.dirs .main ∧ files.contents = working →
      post true (files.setDir .main dir)) (hf : post false files)
    (hc : fFaults = true → crash files) :
    wp (Allowed fFaults) (commitTxn txn) post crash files := by
  have hsame : files.setDir .main (files.dirs .main) = files := by simp [StoreFiles.setDir]
  have hcommit (outcomes : ℕ → MdbOutcome) : post (txn.commit outcomes).1
      (if (txn.commit outcomes).2.env.contents = files.contents then files
        else files.setDir .main ((files.dirs .main).map fun dir =>
          { dir with data := some (.whole (txn.commit outcomes).2.env.contents) })) := by
    obtain ⟨htrue, hfalse⟩ := commit_writing h outcomes
    rcases hrun : txn.commit outcomes with ⟨_ | _, txn'⟩
    · rw [hrun] at hfalse
      rw [if_pos (hfalse rfl)]
      exact hf
    · rw [hrun] at htrue
      rw [htrue rfl]
      split
      · next hunchanged =>
        rw [← hsame]
        exact hs _ (Or.inr ⟨rfl, hunchanged.symm⟩)
      · obtain ⟨dir, hdir⟩ := isSome_iff_exists.mp hmain
        rw [hdir]
        exact hs _ (Or.inl ⟨dir.fLock, rfl⟩)
  refine wp_act fun c hallowed => ?_
  cases hending : c.ending with
  | success => exact hcommit c.mdb
  | failed => exact hcommit c.mdb
  | stops => exact hc (hallowed.faults (by rw [hending]; decide))

/-! ## The migrations -/

/-- A call of Berkeley DB whose failure ends the migration. -/
theorem callOrReturn_wp {rest : StoreProg Bool} (hrest : wp (Allowed fFaults) rest post crash files)
    (hf : post false files) (hc : fFaults = true → crash files) :
    wp (Allowed fFaults) (do
      if ¬ (← call) then return false
      rest) post crash files :=
  wp_bind (call_wp (wp_ite (fun hf => absurd rfl hf) fun _ => hrest)
    (fun _ => wp_ite (fun _ => wp_pure hf) fun hf => absurd Bool.false_ne_true hf) hc)

/-- The wallet migrates into an empty environment: all records of `wallet.dat`, or none. -/
theorem migrateWalletToLMDB_wp (hsource : files.bdbFile = some source)
    (henv : files.env = some sizes) (hmain : (files.dirs .main).isSome)
    (hempty : files.contents = ∅)
    (hs : ∀ dir, Whole source dir ∨ dir = files.dirs .main ∧ files.contents = source →
      post true (files.setDir .main dir)) (hf : post false files)
    (hc : fFaults = true → crash files) :
    wp (Allowed fFaults) migrateWalletToLMDB post crash files := by
  refine wp_bind (wp_look ?_)
  rw [hsource]
  have hrefused : wp (Allowed fFaults) (pure false) post crash files := wp_pure hf
  refine callOrReturn_wp ?_ hf hc
  refine callOrReturn_wp ?_ hf hc
  refine wp_bind (beginTransaction_wp henv ?_ (fun _ => hrefused) hc)
  refine wp_seq (copyWalletRecords_wp _ hc (beginTransaction_writing files sizes)) ?_
  rintro ⟨fSuccess, txn, nRecords⟩ files' ⟨hsame, hcopied⟩
  rw [hsame]
  rw [insertAll_sortedRecords (Or.inl hempty)] at hcopied
  -- what follows the verification
  have hfinish (ok : Bool) (hok : ok = true → fSuccess = true) : wp (Allowed fFaults) (do
      if nRecords = 0 then return false
      if ¬ ok then return false
      commitTxn txn) post crash files := by
    refine wp_ite (fun _ => hrefused) fun _ => wp_ite (fun _ => hrefused) fun hverified => ?_
    exact commitTxn_wp (hcopied (hok (not_not.mp hverified))) hmain hs hf hc
  refine wp_ite (fun hcond => ?_) fun _ => ?_
  · exact wp_bind (verifyCount_wp (fun ok => hfinish ok fun _ => hcond.1) hc)
  · exact wp_bind (wp_pure (hfinish fSuccess id))

/-- `IsChainLMDBEmpty` finds no record where there is none; it may miss those that are there. -/
theorem isChainLMDBEmpty_wp {post : Option Bool → StoreFiles → Prop} (henv : files.env = some sizes)
    (hs : ∀ fEmpty, (fEmpty = false → files.contents ≠ ∅) → post (some fEmpty) files)
    (hf : post none files) (hc : fFaults = true → crash files) :
    wp (Allowed fFaults) isChainLMDBEmpty post crash files := by
  refine wp_bind (beginTransaction_wp henv ?_ (fun _ => wp_pure hf) hc)
  refine wp_bind (wp_bind (cursorFails_wp (fun fails _ => wp_pure ?_) hc))
  refine wp_bind (cursorFails_wp (fun failsAgain _ => ?_) hc)
  have hcreate : CLMDBIterator.create fails
      ((CLMDBTransaction.beginTransaction (lmdbEnv files sizes) true).txn.elim ∅ (·.working)) =
        CLMDBIterator.create fails files.contents := rfl
  rw [hcreate]
  refine wp_bind (commitTxn_readOnly_wp ?_ hc)
  refine wp_ite (fun h => absurd rfl h) fun _ => wp_pure (hs _ fun hvalid hempty => ?_)
  rw [hempty] at hvalid
  cases fails with
  | true => contradiction
  | false =>
    cases failsAgain with
    | true => contradiction
    | false =>
      rw [(seekToFirst_create false false ∅).2 rfl] at hvalid
      contradiction

theorem migrateToLMDB_wp (hsource : files.bdbFile = some source) (henv : files.env = some sizes)
    (hmain : (files.dirs .main).isSome) (hbase : files.contents = ∅ ∨ files.contents = source)
    (hs : ∀ dir, Whole source dir ∨ dir = files.dirs .main ∧ files.contents = source →
      post true (files.setDir .main dir)) (hf : post false files)
    (hc : fFaults = true → crash files) :
    wp (Allowed fFaults) migrateToLMDB post crash files := by
  have hsame : files.setDir .main (files.dirs .main) = files := by simp [StoreFiles.setDir]
  refine wp_bind (wp_look ?_)
  rw [hsource]
  have hrefused : wp (Allowed fFaults) (pure false) post crash files := wp_pure hf
  refine wp_bind (isChainLMDBEmpty_wp henv (fun fEmpty hfound => ?_) hrefused hc)
  cases fEmpty with
  | false =>
    refine wp_pure ?_
    rw [← hsame]
    exact hs _ (Or.inr ⟨rfl, hbase.resolve_left (hfound rfl)⟩)
  | true =>
  refine callOrReturn_wp ?_ hf hc
  refine callOrReturn_wp ?_ hf hc
  refine wp_bind (beginTransaction_wp henv ?_ (fun _ => hrefused) hc)
  refine wp_seq (copyChainRecords_wp _ hc (beginTransaction_writing files sizes)) ?_
  rintro ⟨fSuccess, txn⟩ files' ⟨hfiles, hcopied⟩
  rw [hfiles]
  rw [insertAll_sortedRecords hbase] at hcopied
  refine wp_ite (fun _ => hrefused) fun hsuccess => ?_
  exact commitTxn_wp (hcopied (not_not.mp hsuccess)) hmain hs hf hc

/-! ## Starts -/

/-- A store that has not been migrated, or has been and holds all records. The marker is only
there when it holds them. -/
structure Migrating (source : DbContents) (files : StoreFiles) : Prop where
  bdb : files.bdbFile = some source
  dir : files.contents = ∅ ∨ Whole source (files.dirs .main)
  marker : files.marker = none ∨ files.marker = some .lmdb ∧ files.contents = source
  rewrite : files.dirs .rewrite = none
  old : files.dirs .old = none

namespace Migrating

variable {source : DbContents}

theorem contents (h : Migrating source files) : files.contents = ∅ ∨ files.contents = source :=
  h.dir.imp_right Whole.contents

variable {dir : Option EnvDir}

section

variable (h : Migrating source files)
include h

/-- What keeps the records of the environment or removes all of them. -/
theorem setMain {env : Option MapSizes}
    (hwhole : Whole source (files.dirs .main) → Whole source dir)
    (hempty : files.contents = ∅ → dir.elim ∅ EnvDir.contents = ∅) :
    Migrating source { files.setDir .main dir with env := env } := by
  have hcontents : ({ files.setDir .main dir with env := env } : StoreFiles).contents =
      files.contents := by
    rcases h.dir with he | hw
    · rw [he]
      exact hempty he
    · exact (hwhole hw).contents.trans hw.contents.symm
  refine ⟨h.bdb, ?_, ?_, h.rewrite, h.old⟩
  · rw [hcontents]
    exact h.dir.imp_right hwhole
  · rw [hcontents]
    exact h.marker

theorem opened {ok : Bool} (hends : OpenEnds (files.dirs .main) dir ok) (env : Option MapSizes) :
    Migrating source { files.setDir .main dir with env := env } :=
  h.setMain (hends.whole source) hends.empty

theorem closed (env enabled : Option MapSizes) :
    Migrating source { files with env := env, enabled := enabled } :=
  ⟨h.bdb, h.dir, h.marker, h.rewrite, h.old⟩

/-- What a migration that succeeds leaves. -/
theorem migrated (hdir : Whole source dir ∨ dir = files.dirs .main ∧ files.contents = source) :
    Migrating source (files.setDir .main dir) ∧ (files.setDir .main dir).contents = source := by
  rcases hdir with hw | ⟨rfl, hcontents⟩
  · have hnew : (files.setDir .main dir).contents = source := hw.contents
    refine ⟨⟨h.bdb, Or.inr hw, ?_, h.rewrite, h.old⟩, hnew⟩
    rw [hnew]
    exact h.marker.imp_right fun hm => ⟨hm.1, rfl⟩
  · have hsame : files.setDir .main (files.dirs .main) = files := by simp [StoreFiles.setDir]
    rw [hsame]
    exact ⟨h, hcontents⟩

theorem marked (hcontents : files.contents = source)
    (marker : Option BackendMarker) (tmp : Option BackendMarker)
    (hmarker : marker = some .lmdb ∨ marker = none) :
    Migrating source { files with marker := marker, markerTmp := tmp } :=
  ⟨h.bdb, h.dir, hmarker.symm.imp_right fun hm => ⟨hm, hcontents⟩, h.rewrite, h.old⟩

end

end Migrating

/-- Writing the marker at the end of a start. -/
theorem writeMarker_migrating (h : Migrating source files) (hcontents : files.contents = source)
    (hpost : ∀ ok files', Migrating source files' → files'.contents = source →
      files'.env = files.env → post ok files')
    (hc : ∀ files', Migrating source files' → crash files') :
    wp (Allowed fFaults) (writeBackendMarker .lmdb) post crash files := by
  have hmissing : ∀ marker, marker = files.marker ∨ marker = none →
      marker = some .lmdb ∨ marker = none := by
    rintro marker (rfl | rfl)
    · exact h.marker.symm.imp_left And.left
    · exact Or.inr rfl
  exact writeBackendMarker_wp
    (fun tmp => hpost true _ (h.marked hcontents _ tmp (Or.inl rfl)) hcontents rfl)
    (fun _ marker tmp hm => hpost false _ (h.marked hcontents _ tmp (hmissing marker hm))
      hcontents rfl)
    fun _ marker tmp hm => hc _ (h.marked hcontents _ tmp (hmissing marker hm))

theorem checkBackendCompatibility_wp (h : ∀ ok, post ok files) (hc : fFaults = true → crash files) :
    wp (Allowed fFaults) checkBackendCompatibility post crash files := by
  refine wp_bind (wp_look ?_)
  cases files.marker with
  | none => exact wp_bind (inspectOnDisk_wp (fun state _ _ => wp_pure (h _)) hc)
  | some marker => cases marker <;> exact wp_pure (h _)

theorem recover_migrating {post : Unit → StoreFiles → Prop} (h : Migrating source files)
    (henv : files.env = none)
    (hpost : ∀ files', Migrating source files' → files'.env = none → post () files')
    (hc : ∀ files', Migrating source files' → crash files') :
    wp (Allowed fFaults) recoverInterruptedWalletRewrite post crash files := by
  refine wp_bind (removeTmp_wp (fun ok tmp => ?_)
    fun _ tmp => hc _ ⟨h.bdb, h.dir, h.marker, h.rewrite, h.old⟩)
  replace h : Migrating source { files with markerTmp := tmp } :=
    ⟨h.bdb, h.dir, h.marker, h.rewrite, h.old⟩
  replace henv : ({ files with markerTmp := tmp } : StoreFiles).env = none := henv
  generalize ({ files with markerTmp := tmp } : StoreFiles) = files at h henv
  refine wp_bind (pathExists_wp (fun fWallet _ _ => ?_) fun _ => hc _ h)
  refine wp_bind (pathExists_wp (fun fNew hnew _ => ?_) fun _ => hc _ h)
  refine wp_bind (pathExists_wp (fun fOld hold _ => ?_) fun _ => hc _ h)
  have hnone : ¬ (¬ fWallet = true ∧ (fNew = true ∨ fOld = true)) := by
    rintro ⟨-, hfound | hfound⟩
    · have hfound := hnew hfound
      rw [h.rewrite] at hfound
      contradiction
    · have hfound := hold hfound
      rw [h.old] at hfound
      contradiction
  refine wp_ite (fun hfound => absurd hfound hnone) fun _ => ?_
  refine wp_bind (pathExists_wp (fun fExists _ _ => ?_) fun _ => hc _ h)
  -- the directories of a rewrite are missing, and their removal changes nothing
  have hremove {path : EnvPath} (hpath : files.dirs path = none) {α : Type} {m : StoreProg α}
      {post : α → StoreFiles → Prop} (hm : wp (Allowed fFaults) m post crash files) :
      wp (Allowed fFaults) (do
        let _ ← removeAll path
        m) post crash files := by
    have hsame : files.setDir path none = files := by simp [StoreFiles.setDir, ← hpath]
    refine wp_bind (fileStep_wp (fun c files' hafter => ?_) (fun c hafter => ?_) (fun _ c => ?_)
      fun _ c => ?_)
    · cases hafter
      rw [hsame]
      exact hm
    · cases hafter
    · rw [hpath, map_none, hsame]
      exact hm
    · rw [hpath, map_none, hsame]
      exact hc _ h
  refine wp_ite (fun _ => ?_) fun _ => wp_pure (hpost _ h henv)
  exact hremove h.rewrite (hremove h.old (wp_pure (hpost _ h henv)))

theorem removeAll_main_migrating (h : Migrating source files) (hempty : files.contents = ∅)
    (hpost : ∀ ok files', Migrating source files' → post ok files')
    (hc : ∀ files', Migrating source files' → crash files') :
    wp (Allowed fFaults) (removeAll .main) post crash files := by
  have hset : ∀ dir : Option EnvDir, dir.elim ∅ EnvDir.contents = ∅ →
      Migrating source (files.setDir .main dir) := by
    intro dir hdir
    have hcontents : (files.setDir .main dir).contents = files.contents := hdir.trans hempty.symm
    refine ⟨h.bdb, Or.inl hdir, ?_, h.rewrite, h.old⟩
    rw [hcontents]
    exact h.marker
  have hleft (c : StepOutcome) : Migrating source (files.setDir .main ((files.dirs .main).map
      fun dir => ⟨if c.fData then none else dir.data, dir.fLock && !c.fLock⟩)) := by
    refine hset _ ?_
    unfold StoreFiles.contents at hempty
    cases hdir : files.dirs .main with
    | none => rfl
    | some dir =>
      rw [hdir] at hempty
      cases c.fData with
      | true => rfl
      | false => exact hempty
  refine fileStep_wp (fun c files' hafter => ?_) (fun c hafter => ?_)
    (fun _ c => hpost _ _ (hleft c)) fun _ c => hc _ (hleft c)
  · cases hafter
    exact hpost _ _ (hset none rfl)
  · cases hafter

theorem opened_isSome {dir : Option EnvDir} (hends : OpenEnds (files.dirs .main) dir true)
    (env : Option MapSizes) :
    (({ files.setDir .main dir with env := env } : StoreFiles).dirs .main).isSome := by
  have hcomplete := hends.opened rfl
  cases dir with
  | none => contradiction
  | some dir => rfl

def StartEnds (source : DbContents) (ok : Bool) (files : StoreFiles) : Prop :=
  Migrating source files ∧ (ok = true → files.contents = source ∧ files.env.isSome)

section

variable (h : Migrating source files)
include h

theorem startEnds_false :
    StartEnds source false files :=
  ⟨h, fun hf => absurd hf Bool.false_ne_true⟩

theorem startEnds_closed :
    wp (Allowed fFaults) (do
      closeEnv return false) (StartEnds source) (Migrating source) files :=
  wp_bind (wp_change (wp_pure (startEnds_false (h.closed none files.enabled))))

/-- The last part of both starts: the marker, and then the use of the environment. -/
theorem enable_migrating (hcontents : files.contents = source)
    (henv : files.env.isSome) (enabled : StoreFiles → Option MapSizes) :
    wp (Allowed fFaults) (do
      if ¬ (← writeBackendMarker .lmdb) then
        closeEnv
        return false
      change fun files => { files with enabled := enabled files }
      return true) (StartEnds source) (Migrating source) files := by
  refine wp_bind (writeMarker_migrating h hcontents (fun ok files' h' hcontents' henv' => ?_)
    fun _ => id)
  refine wp_ite (fun _ => startEnds_closed h') fun _ => wp_bind (wp_change (wp_pure ?_))
  refine ⟨h'.closed files'.env _, fun _ => ⟨hcontents', ?_⟩⟩
  rw [henv']
  exact henv

theorem openDb_migrating (henv : files.env = none)
    {rest : StoreProg Bool}
    (hrest : ∀ files sizes, Migrating source files → (files.dirs .main).isSome →
      files.env = some sizes →
      wp (Allowed fFaults) rest (StartEnds source) (Migrating source) files) :
    wp (Allowed fFaults) (do
      if ¬ (← openEnv sizes) then return false
      if ¬ (← call) then
        closeEnv
        return false
      rest) (StartEnds source) (Migrating source) files := by
  refine wp_bind (openEnv_wp henv (fun dir sizes' hends => ?_) (fun dir hends _ => ?_)
    fun _ dir hends => h.opened hends files.env)
  swap
  · refine wp_ite (fun _ => wp_pure (startEnds_false (h.opened hends files.env))) fun hf => ?_
    exact absurd Bool.false_ne_true hf
  have hmain := opened_isSome hends (some sizes')
  replace h := h.opened hends (some sizes')
  refine wp_bind (call_wp ?_ (fun _ => ?_) fun _ => h)
  swap
  · exact wp_ite (fun _ => startEnds_closed h) fun hf => absurd Bool.false_ne_true hf
  exact wp_ite (fun hf => absurd rfl hf) fun _ => hrest _ sizes' h hmain rfl

theorem openWallet_migrating (henv : files.env = none) :
    wp (Allowed fFaults) (initLMDBWalletDBInternal.openWallet sizes fMarkerLMDB true)
      (StartEnds source) (Migrating source) files := by
  refine wp_bind (sourceSize_wp (fun nSourceBytes => ?_) fun _ => h)
  refine openDb_migrating h henv fun files sizes' h hmain henv' => ?_
  have henvSome := isSome_of_eq_some henv'
  refine wp_bind (isWalletLMDBEmpty_wp henv' ?_ (fun _ => startEnds_closed h) fun _ => h)
  by_cases hempty : files.contents = ∅
  · rw [decide_eq_true hempty]
    cases fMarkerLMDB with
    | true => exact startEnds_closed h
    | false =>
      refine wp_bind (migrateWalletToLMDB_wp h.bdb henv' hmain hempty (fun dir hdir => ?_) ?_
        fun _ => h)
      · obtain ⟨hmigrated, hcontents⟩ := h.migrated hdir
        exact wp_ite (fun _ => enable_migrating hmigrated hcontents henvSome _)
          fun hf => absurd rfl hf
      · refine wp_ite (fun hf => absurd hf Bool.false_ne_true) fun _ => wp_bind (wp_change ?_)
        exact wp_bind (removeAll_main_migrating (h.closed none files.enabled) hempty
          (fun ok files' h' => wp_pure (startEnds_false h')) fun _ => id)
  · rw [decide_eq_false hempty]
    exact enable_migrating h (h.contents.resolve_left hempty) henvSome _

/-- A wallet start takes over all records of `wallet.dat`, or reports a failure. -/
theorem initLMDBWalletDBInternal_migrating (henv : files.env = none) :
    wp (Allowed fFaults) (initLMDBWalletDBInternal sizes) (StartEnds source) (Migrating source)
      files := by
  refine wp_bind (checkBackendCompatibility_wp (fun ok => ?_) fun _ => h)
  refine wp_ite (fun _ => wp_pure (startEnds_false h)) fun _ => ?_
  refine wp_bind (recover_migrating h henv (fun files' h henv => ?_) fun _ => id)
  refine wp_bind (wp_look (wp_bind (wp_look ?_)))
  rw [h.bdb]
  refine wp_ite (fun _ => ?_) fun _ => openWallet_migrating h henv
  refine wp_bind (inspectOnDisk_wp (fun state _ _ => ?_) fun _ => h)
  exact wp_ite (fun _ => openWallet_migrating h henv) fun _ => wp_pure (startEnds_false h)

theorem openChain_migrating (henv : files.env = none) :
    wp (Allowed fFaults) (initLMDBChainDB.openChain sizes fMarkerLMDB)
      (StartEnds source) (Migrating source) files := by
  refine wp_bind (call_wp ?_ (fun _ => ?_) fun _ => h)
  swap
  · refine wp_ite (fun _ => wp_pure (startEnds_false h)) fun hf => absurd Bool.false_ne_true hf
  refine openDb_migrating h henv fun files sizes' h hmain henv' => ?_
  have henvSome := isSome_of_eq_some henv'
  refine wp_bind (isChainLMDBEmpty_wp henv' (fun fEmpty hfound => ?_) (startEnds_closed h)
    fun _ => h)
  cases fEmpty with
  | false => exact enable_migrating h (h.contents.resolve_left (hfound rfl)) henvSome _
  | true =>
    cases fMarkerLMDB with
    | true => exact startEnds_closed h
    | false =>
      -- whether or not there are records already
      refine wp_bind (migrateToLMDB_wp h.bdb henv' hmain h.contents (fun dir hdir => ?_) ?_
        fun _ => h)
      · obtain ⟨hmigrated, hcontents⟩ := h.migrated hdir
        exact wp_ite (fun _ => enable_migrating hmigrated hcontents henvSome _)
          fun hf => absurd rfl hf
      · exact wp_ite (fun hf => absurd hf Bool.false_ne_true) fun _ => startEnds_closed h

/-- A start on the chain index takes over all records of `blkindex.dat`, or reports a
failure. -/
theorem initLMDBChainDB_migrating (henv : files.env = none) :
    wp (Allowed fFaults) (initLMDBChainDB sizes) (StartEnds source) (Migrating source) files := by
  refine wp_bind (checkBackendCompatibility_wp (fun ok => ?_) fun _ => h)
  refine wp_ite (fun _ => wp_pure (startEnds_false h)) fun _ => ?_
  refine wp_ite (fun _ => ?_) fun _ => openChain_migrating h henv
  refine wp_bind (inspectOnDisk_wp (fun state _ _ => ?_) fun _ => h)
  exact wp_ite (fun _ => openChain_migrating h henv) fun _ => wp_pure (startEnds_false h)

end

/-! ## The inspection of the chain index -/

variable {choices : ℕ → StepOutcome} {n : ℕ}

theorem cursorFails_run (h : (choices n).ending ≠ .stops) :
    cursorFails choices n files = (some (decide ((choices n).ending = .failed)), n + 1, files) := by
  cases hending : (choices n).ending with
  | success =>
    have hcall : call choices n files = (some true, n + 1, files) := by simp [call, act, hending]
    exact bind_of_some hcall
  | failed =>
    have hcall : call choices n files = (some false, n + 1, files) := by simp [call, act, hending]
    exact bind_of_some hcall
  | stops => exact absurd hending h

theorem cursorFails_stops (h : (choices n).ending = .stops) :
    (cursorFails choices n files).1 = none :=
  bind_of_none (by simp [call, act, h])

theorem newIterator_run (h : (choices n).ending ≠ .stops) :
    newIterator txn choices n files =
      (some (.create (decide ((choices n).ending = .failed)) (txn.txn.elim ∅ (·.working))), n + 1,
        files) :=
  bind_of_some (cursorFails_run h)

theorem newIterator_stops (h : (choices n).ending = .stops) :
    (newIterator txn choices n files).1 = none :=
  bind_of_none (cursorFails_stops h)

/-- When `IsChainLMDBEmpty` answers that there are no records. -/
theorem isChainLMDBEmpty_empty_iff :
    (isChainLMDBEmpty choices n files).1 = some (some true) ↔
      (choices n).ending = .success ∧ files.env.isSome ∧
        (choices (n + 1)).ending ≠ .stops ∧ (choices (n + 2)).ending ≠ .stops ∧
        (choices (n + 3)).ending ≠ .stops ∧
        (files.contents = ∅ ∨ (choices (n + 1)).ending = .failed ∨
          (choices (n + 2)).ending = .failed) := by
  unfold isChainLMDBEmpty
  by_cases hbegin : (choices n).ending = .success ∧ files.env.isSome
  swap
  · refine iff_of_false (fun h => ?_) fun h => hbegin ⟨h.1, h.2.1⟩
    cases hending : (choices n).ending with
    | success =>
      cases henv : files.env with
      | some sizes => exact hbegin ⟨hending, by rw [henv]; rfl⟩
      | none =>
        have hnone : beginTransaction true choices n files = (some none, n + 1, files) := by
          simp [beginTransaction, act, hending, henv]
        rw [bind_of_some hnone] at h
        cases h
    | failed =>
      have hnone : beginTransaction true choices n files = (some none, n + 1, files) := by
        simp [beginTransaction, act, hending]
      rw [bind_of_some hnone] at h
      cases h
    | stops =>
      rw [bind_of_none (by simp [beginTransaction, act, hending])] at h
      cases h
  obtain ⟨hsuccess, henv⟩ := hbegin
  obtain ⟨sizes, hsizes⟩ := isSome_iff_exists.mp henv
  have htxn : beginTransaction true choices n files =
      (some (some (.beginTransaction (lmdbEnv files sizes) true)), n + 1, files) := by
    simp [beginTransaction, act, hsuccess, hsizes]
  rw [bind_of_some htxn]
  dsimp only
  by_cases hopen : (choices (n + 1)).ending = .stops
  · rw [bind_of_none (newIterator_stops hopen)]
    exact iff_of_false (fun h => by cases h) fun h => h.2.2.1 hopen
  rw [bind_of_some (newIterator_run hopen)]
  by_cases hseek : (choices (n + 2)).ending = .stops
  · rw [bind_of_none (cursorFails_stops hseek)]
    exact iff_of_false (fun h => by cases h) fun h => h.2.2.2.1 hseek
  rw [bind_of_some (cursorFails_run hseek)]
  by_cases hcommit : (choices (n + 3)).ending = .stops
  · rw [bind_of_none (by simp [commitTxn, act, hcommit])]
    exact iff_of_false (fun h => by cases h) fun h => h.2.2.2.2.1 hcommit
  have hcommitted : commitTxn (.beginTransaction (lmdbEnv files sizes) true) choices (n + 3) files =
      (some true, n + 4, files) := by
    obtain ⟨hok, hcontents⟩ := commit_readOnly (choices (n + 3)).mdb (lmdbEnv files sizes)
    have hsame : (lmdbEnv files sizes).contents = files.contents := rfl
    unfold commitTxn act
    cases hending : (choices (n + 3)).ending with
    | stops => exact absurd hending hcommit
    | success => simp [hok, hcontents, hsame]
    | failed => simp [hok, hcontents, hsame]
  rw [bind_of_some hcommitted]
  have hworking : (CLMDBTransaction.beginTransaction (lmdbEnv files sizes) true).txn.elim ∅
      (·.working) = files.contents := rfl
  have hanswer : ∀ it : CLMDBIterator, ((if ¬ true = true then pure none
      else pure (some !it.isValid) : StoreProg (Option Bool)) choices (n + 4) files).1 =
        some (some true) ↔ it.isValid = false := by
    intro it
    show some (some !it.isValid) = some (some true) ↔ _
    simp
  rw [hanswer, hworking]
  simp only [hsuccess, henv, hopen, hseek, hcommit, not_false_eq_true, true_and, ne_eq]
  by_cases hopenFails : (choices (n + 1)).ending = .failed
  · rw [decide_eq_true hopenFails]
    exact iff_of_true rfl (Or.inr (Or.inl hopenFails))
  · by_cases hseekFails : (choices (n + 2)).ending = .failed
    · rw [decide_eq_false hopenFails, decide_eq_true hseekFails]
      exact iff_of_true rfl (Or.inr (Or.inr hseekFails))
    · rw [decide_eq_false hopenFails, decide_eq_false hseekFails,
        (seekToFirst_create false false files.contents).2 rfl]
      simp [hopenFails, hseekFails]

/-- `IsWalletLMDBEmpty` answers that there are no records only when there are none. -/
theorem isWalletLMDBEmpty_honest (files : StoreFiles) :
    wp (Allowed true) isWalletLMDBEmpty (fun answer _ => answer = some true → files.contents = ∅)
      (fun _ => True) files := by
  cases henv : files.env with
  | some sizes =>
    refine isWalletLMDBEmpty_wp henv (fun hanswer => ?_) (fun _ hanswer => ?_) fun _ => trivial
    · exact of_decide_eq_true (Option.some.inj hanswer)
    · contradiction
  | none =>
    have hnone : wp (Allowed true) (pure none) (fun answer _ => answer = some true →
        files.contents = ∅) (fun _ => True) files := wp_pure fun h => by contradiction
    refine wp_bind (wp_act fun c _ => ?_)
    rw [henv]
    cases c.ending with
    | success => exact hnone
    | failed => exact hnone
    | stops => exact trivial

/-! ## Everything or nothing -/

/-- The two stores that are migrated. -/
inductive LmdbStore where
  | wallet
  | chain
deriving DecidableEq

namespace LmdbStore

def isEmpty : LmdbStore → StoreProg (Option Bool)
  | wallet => isWalletLMDBEmpty
  | chain => isChainLMDBEmpty

def migrate : LmdbStore → StoreProg Bool
  | wallet => migrateWalletToLMDB
  | chain => migrateToLMDB

/-- A start of the process, which has no environment open. -/
def start (sizes : MapSizes) (store : LmdbStore) : StoreProg Bool := do
  change fun files => { files with env := none, enabled := none }
  match store with
  | wallet => initLMDBWalletDBInternal sizes
  | chain => initLMDBChainDB sizes

end LmdbStore

/-- The Berkeley DB file has the records `source` and nothing has been migrated. -/
structure Unmigrated (source : DbContents) (files : StoreFiles) : Prop where
  bdb : files.bdbFile = some source
  empty : files.contents = ∅
  marker : files.marker = none
  rewrite : files.dirs .rewrite = none
  old : files.dirs .old = none

theorem Unmigrated.migrating (h : Unmigrated source files) :
    Migrating source files :=
  ⟨h.bdb, Or.inl h.empty, Or.inl h.marker, h.rewrite, h.old⟩

/-- What is asked of the migration of a store that begins at `files`, with the given outcomes
of all operations. -/
structure AllOrNothing (store : LmdbStore) (choices : ℕ → StepOutcome) (n : ℕ)
    (files : StoreFiles) : Prop where
  /-- An inspection that is cut short is not taken for one that found nothing. -/
  inspection : (store.isEmpty choices n files).1 = some (some true) → files.contents = ∅
  /-- Success is reported with all records committed, a failure with none. -/
  migration : ∀ source, files.bdbFile = some source → files.env.isSome →
    (files.dirs .main).isSome → files.contents = ∅ →
      (store.migrate choices n files).2.2.contents =
        if (store.migrate choices n files).1 = some true then source else ∅
  /-- However many starts fail or stop, a later start does not go by a part of the records. -/
  starts : ∀ source sizes files' choices' n', Unmigrated source files →
    Restarts (fun _ => True) (store.start sizes) files files' →
      (files'.contents = ∅ ∨ files'.contents = source) ∧
      (files'.marker = some .lmdb → files'.contents = source) ∧
      ((store.start sizes choices' n' files').1 = some true →
        (store.start sizes choices' n' files').2.2.contents = source)
  /-- A scan with `CBDBIterator` that reports no error has returned everything. -/
  scans : ∀ contents keyPrefix fOpenFails fails,
    ((CBDBIterator.create fOpenFails contents keyPrefix).scan fails).2.fError = false →
      ((CBDBIterator.create fOpenFails contents keyPrefix).scan fails).1 =
        (sortedRecords contents).filter fun record => keyHasPrefix record.1 keyPrefix

theorem start_migrating (fFaults : Bool) (sizes : MapSizes) (store : LmdbStore)
    (h : Migrating source files) :
    wp (Allowed fFaults) (store.start sizes) (StartEnds source) (Migrating source) files := by
  cases store with
  | wallet => exact initLMDBWalletDBInternal_migrating (h.closed none none) rfl
  | chain => exact initLMDBChainDB_migrating (h.closed none none) rfl

theorem migrate_wp (store : LmdbStore) (hsource : files.bdbFile = some source)
    (henv : files.env = some sizes) (hmain : (files.dirs .main).isSome)
    (hempty : files.contents = ∅) :
    wp (Allowed true) store.migrate
      (fun ok files' => files'.contents = if ok = true then source else ∅)
      (fun files' => files'.contents = ∅) files := by
  have hs : ∀ dir, Whole source dir ∨ dir = files.dirs .main ∧ files.contents = source →
      (files.setDir .main dir).contents = if true = true then source else ∅ := by
    rintro dir (hw | ⟨rfl, hcontents⟩)
    · exact hw.contents
    · exact hcontents
  cases store with
  | wallet => exact migrateWalletToLMDB_wp hsource henv hmain hempty hs hempty fun _ => hempty
  | chain => exact migrateToLMDB_wp hsource henv hmain (Or.inl hempty) hs hempty fun _ => hempty

/-- A migration copies everything or nothing, unless the chain index has records and a cursor
error hides them from its inspection. -/
theorem migration_allOrNothing_iff (store : LmdbStore) (choices : ℕ → StepOutcome) (n : ℕ)
    (files : StoreFiles) :
    AllOrNothing store choices n files ↔
      ¬ (store = .chain ∧ files.contents ≠ ∅ ∧ files.env.isSome ∧
        (choices n).ending = .success ∧ (choices (n + 1)).ending ≠ .stops ∧
        (choices (n + 2)).ending ≠ .stops ∧ (choices (n + 3)).ending ≠ .stops ∧
        ((choices (n + 1)).ending = .failed ∨ (choices (n + 2)).ending = .failed)) := by
  constructor
  · rintro h ⟨rfl, hcontents, henv, hbegin, hopen, hseek, hcommit, hfailed⟩
    exact hcontents (h.inspection (isChainLMDBEmpty_empty_iff.mpr
      ⟨hbegin, henv, hopen, hseek, hcommit, Or.inr hfailed⟩))
  · intro hno
    refine ⟨fun hanswer => ?_, fun source hsource henv hmain hempty => ?_,
      fun source sizes files' choices' n' hun hstarts => ?_, scan_complete⟩
    · by_contra hcontents
      cases store with
      | wallet =>
        have hend := isWalletLMDBEmpty_honest files choices n fun _ => Or.inl rfl
        have hrun : (isWalletLMDBEmpty choices n files).1 = some (some true) := hanswer
        rw [hrun] at hend
        exact hcontents (hend rfl)
      | chain =>
        obtain ⟨hbegin, henv, hopen, hseek, hcommit, hempty | hfailed⟩ :=
          isChainLMDBEmpty_empty_iff.mp hanswer
        · exact hcontents hempty
        · exact hno ⟨rfl, hcontents, henv, hbegin, hopen, hseek, hcommit, hfailed⟩
    · obtain ⟨sizes, hsizes⟩ := isSome_iff_exists.mp henv
      have hend := migrate_wp store hsource hsizes hmain hempty choices n fun _ => Or.inl rfl
      rcases hrun : store.migrate choices n files with ⟨_ | ok, n', files'⟩
      · rw [hrun] at hend
        exact hend
      · rw [hrun] at hend
        cases ok with
        | true => exact hend
        | false => exact hend
    · have hinv : Migrating source files' := by
        refine hstarts.invariant (fun files hfiles => ?_) hun.migrating
        exact wp_allowed (wp_mono (start_migrating true sizes store hfiles)
          (fun ok files' hend => hend.1) fun _ => id) fun _ _ => Or.inl rfl
      refine ⟨hinv.contents, fun hmarker => ?_, fun hok => ?_⟩
      · rcases hinv.marker with hnone | ⟨-, hcontents⟩
        · rw [hmarker] at hnone
          contradiction
        · exact hcontents
      · have hend := start_migrating true sizes store hinv choices' n'
          fun _ => Or.inl rfl
        rw [hok] at hend
        exact (hend.2 rfl).1

/-- An LMDB chain index of an older build, with records and no marker. -/
def sampleChainIndex : StoreFiles where
  dirs path :=
    if path = .main then some ⟨some (.whole ((∅ : DbContents).insert [1] [2])), true⟩ else none
  marker := none
  markerTmp := none
  bdbFile := some ((∅ : DbContents).insert [3] [4])
  env := some ⟨4096, 65536, true⟩
  enabled := none

/-- The operation with number `k` fails. -/
def failsAt (k n : ℕ) : StepOutcome :=
  ⟨if n = k then .failed else .success, true, true, 1, ∅, fun _ => .success, 0⟩

/-- The cursor call of the inspection fails, and the index counts as empty. -/
theorem migration_takes_error_for_end : ¬ AllOrNothing .chain (failsAt 2) 0 sampleChainIndex := by
  intro h
  have hempty : sampleChainIndex.contents = ∅ := h.inspection (isChainLMDBEmpty_empty_iff.mpr
    ⟨rfl, rfl, by decide, by decide, by decide, Or.inr (Or.inr rfl)⟩)
  exact absurd hempty (by decide)

end Phoenixcoin.Analysis
