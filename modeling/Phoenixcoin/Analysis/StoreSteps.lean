import Phoenixcoin.Analysis.MapFull
import Phoenixcoin.Program.BackendStart

/-!
# What the operations on a store do

One rule for each operation on the files of an LMDB store. A run is either free of faults, so
that each of its operations succeeds, or any operation in it may fail or be the last.
-/

set_option autoImplicit false

namespace Phoenixcoin.Analysis

open Lib Lib.Crash Program Program.StoreProg EnvDir CLMDBIterator

/-- The outcomes of the operations of a run, with or without faults. -/
def Allowed (fFaults : Bool) (c : StepOutcome) : Prop := fFaults = true ∨ c.ending = .success

theorem Allowed.faults {fFaults : Bool} {c : StepOutcome} (h : Allowed fFaults c)
    (hending : c.ending ≠ .success) : fFaults = true :=
  h.resolve_right hending

@[simp]
theorem setDir_dirs (files : StoreFiles) (path path' : EnvPath) (dir : Option EnvDir) :
    (files.setDir path dir).dirs path' = if path' = path then dir else files.dirs path' := by
  simp [StoreFiles.setDir, Function.update_apply]

variable {path : EnvPath} {post : Bool → StoreFiles → Prop} {dir : Option EnvDir} {sizes : MapSizes}

variable {α : Type} {fFaults : Bool} {crash : StoreFiles → Prop} {files : StoreFiles}

theorem call_wp (hs : post true files) (hf : fFaults = true → post false files)
    (hc : fFaults = true → crash files) :
    wp (Allowed fFaults) call post crash files := by
  refine wp_act fun c hallowed => ?_
  cases hending : c.ending with
  | success => exact hs
  | failed => exact hf (hallowed.faults (by rw [hending]; decide))
  | stops => exact hc (hallowed.faults (by rw [hending]; decide))

theorem fileStep_wp {after : StepOutcome → StoreFiles → Option StoreFiles}
    {left : StepOutcome → StoreFiles → StoreFiles}
    (hs : ∀ c files', after c files = some files' → post true files')
    (hr : ∀ c, after c files = none → post false files)
    (hf : fFaults = true → ∀ c, post false (left c files))
    (hc : fFaults = true → ∀ c, crash (left c files)) :
    wp (Allowed fFaults) (fileStep after left) post crash files := by
  refine wp_act fun c hallowed => ?_
  cases hending : c.ending with
  | success =>
    cases hafter : after c files with
    | none => exact hr c hafter
    | some files' => exact hs c files' hafter
  | failed => exact hf (hallowed.faults (by rw [hending]; decide)) c
  | stops => exact hc (hallowed.faults (by rw [hending]; decide)) c

/-- A query that fails finds no directory. -/
theorem pathExists_wp
    (h : ∀ fExists, (fExists = true → (files.dirs path).isSome) →
      (fFaults = false → fExists = (files.dirs path).isSome) → post fExists files)
    (hc : fFaults = true → crash files) :
    wp (Allowed fFaults) (pathExists path) post crash files := by
  refine wp_act fun c hallowed => ?_
  cases hending : c.ending with
  | success => exact h _ id fun _ => rfl
  | failed =>
    have hfaults := hallowed.faults (by rw [hending]; decide)
    exact h false (fun hf => absurd hf Bool.false_ne_true) fun hf => by simp [hfaults] at hf
  | stops => exact hc (hallowed.faults (by rw [hending]; decide))

/-- Whatever a removal leaves, it leaves in its own directory. -/
theorem removeAll_wp
    (h : ∀ ok dir, (fFaults = false → ok = true) → (ok = true → dir = none) →
      post ok (files.setDir path dir)) (hc : fFaults = true → ∀ dir, crash (files.setDir path dir))
    :
    wp (Allowed fFaults) (removeAll path) post crash files := by
  refine fileStep_wp (fun c files' hafter => ?_) (fun c hafter => ?_) (fun hfaults c => ?_)
    fun hfaults c => hc hfaults _
  · cases hafter
    exact h true none (fun _ => rfl) fun _ => rfl
  · cases hafter
  · exact h false _ (fun hf => by simp [hfaults] at hf) fun hf => absurd hf Bool.false_ne_true

/-- A directory moves as a whole or stays where it is. -/
theorem rename_wp {pathFrom pathTo : EnvPath}
    (hs : ∀ dir, files.dirs pathFrom = some dir → (files.dirs pathTo).all isEmpty →
      post true ((files.setDir pathFrom none).setDir pathTo (some dir)))
    (hf : (fFaults = false → files.dirs pathFrom = none ∨
      (files.dirs pathTo).all isEmpty = false) → post false files)
    (hc : fFaults = true → crash files) :
    wp (Allowed fFaults) (rename pathFrom pathTo) post crash files := by
  refine fileStep_wp (fun c files' hafter => ?_) (fun c hafter => ?_)
    (fun hfaults c => hf fun hno => by simp [hfaults] at hno) fun hfaults c => hc hfaults
  · cases hfrom : files.dirs pathFrom with
    | none => simp [hfrom] at hafter
    | some dir =>
      simp only [hfrom] at hafter
      split at hafter
      · next hempty =>
        cases hafter
        exact hs dir hfrom hempty
      · contradiction
  · refine hf fun _ => ?_
    cases hfrom : files.dirs pathFrom with
    | none => exact Or.inl rfl
    | some dir =>
      simp only [hfrom] at hafter
      split at hafter
      · contradiction
      · next hempty => exact Or.inr (Bool.not_eq_true _ ▸ hempty)

theorem createDirectories_wp (hs : ∀ dir, post true (files.setDir path (some dir)))
    (hf : post false files) (hc : crash files) :
    wp (Allowed fFaults) (createDirectories path) post crash files := by
  refine fileStep_wp (fun c files' hafter => ?_) (fun c hafter => hf) (fun _ c => hf) fun _ c => hc
  cases hpath : files.dirs path with
  | none =>
    simp only [hpath] at hafter
    cases hafter
    exact hs _
  | some dir =>
    simp only [hpath] at hafter
    cases hafter
    have hsame : files.setDir path (some dir) = files := by
      simp [StoreFiles.setDir, ← hpath]
    rw [← hsame]
    exact hs dir

theorem copyCompact_wp
    (hs : ∀ fLock, post true (files.setDir path (some ⟨some (.whole files.contents), fLock⟩)))
    (hf : ∀ dir, post false (files.setDir path dir)) (hc : ∀ dir, crash (files.setDir path dir)) :
    wp (Allowed fFaults) (copyCompact path) post crash files := by
  have hsame : files.setDir path (files.dirs path) = files := by simp [StoreFiles.setDir]
  have hfiles : post false files := hsame ▸ hf (files.dirs path)
  refine fileStep_wp (fun c files' hafter => ?_) (fun c _ => hfiles) (fun _ c => ?_) fun _ c => ?_
  · split at hafter
    · cases hafter
      exact hs _
    · contradiction
  · split
    · split
      · exact hf _
      · exact hfiles
    · exact hfiles
  · have hkept : crash files := hsame ▸ hc (files.dirs path)
    split
    · split
      · exact hc _
      · exact hkept
    · exact hkept

/-- An inspection that fails finds the environment missing or incomplete. -/
theorem inspectOnDisk_wp {post : LMDBOnDiskState → StoreFiles → Prop}
    (h : ∀ state, (state.fComplete = true → (files.dirs .main).any complete) →
      (fFaults = false → state =
        ⟨(files.dirs .main).isSome, (files.dirs .main).any complete⟩) → post state files)
    (hc : fFaults = true → crash files) :
    wp (Allowed fFaults) inspectOnDisk post crash files := by
  refine wp_act fun c hallowed => ?_
  cases hending : c.ending with
  | success => exact h _ id fun _ => rfl
  | failed =>
    have hfaults := hallowed.faults (by rw [hending]; decide)
    exact h _ (fun hf => absurd hf Bool.false_ne_true) fun hf => by simp [hfaults] at hf
  | stops => exact hc (hallowed.faults (by rw [hending]; decide))

/-! ## Opening the environment -/

theorem sourceSize_wp {post : Option ℕ → StoreFiles → Prop}
    (h : ∀ nSourceBytes, post nSourceBytes files) (hc : fFaults = true → crash files) :
    wp (Allowed fFaults) sourceSize post crash files := by
  refine wp_act fun c hallowed => ?_
  cases hending : c.ending with
  | success => exact h _
  | failed => exact h none
  | stops => exact hc (hallowed.faults (by rw [hending]; decide))

def Whole (contents : DbContents) (dir : Option EnvDir) : Prop :=
  ∃ fLock, dir = some ⟨some (.whole contents), fLock⟩

theorem Whole.contents {contents : DbContents} (h : Whole contents dir) :
    dir.elim ∅ EnvDir.contents = contents := by
  obtain ⟨fLock, rfl⟩ := h
  rfl

variable {contents : DbContents}

theorem Whole.complete (h : Whole contents dir) :
    dir.any complete = true := by
  obtain ⟨fLock, rfl⟩ := h
  rfl

theorem Whole.isSome (h : Whole contents dir) : dir.isSome = true := by
  obtain ⟨fLock, rfl⟩ := h
  rfl

theorem Whole.not_empty (h : Whole contents dir) :
    dir.all isEmpty = false := by
  obtain ⟨fLock, rfl⟩ := h
  rfl

/-- What `CLMDBEnv::Open` may make of a directory. -/
structure OpenEnds (dir dir' : Option EnvDir) (ok : Bool) : Prop where
  whole : ∀ contents, Whole contents dir → Whole contents dir'
  empty : dir.elim ∅ EnvDir.contents = ∅ → dir'.elim ∅ EnvDir.contents = ∅
  opened : ok = true → dir'.any EnvDir.complete

theorem begunDir_ends (c : StepOutcome) (dir : Option EnvDir) :
    OpenEnds dir (begunDir c dir) false := by
  refine ⟨?_, ?_, fun hf => absurd hf Bool.false_ne_true⟩
  · rintro contents ⟨fLock, rfl⟩
    exact ⟨_, rfl⟩
  · rcases dir with _ | ⟨_ | data, fLock⟩
    · intro _
      dsimp only [begunDir]
      split <;> rfl
    · intro _
      dsimp only [begunDir]
      cases c.fData <;> rfl
    · exact id

theorem openedData_ends {data : DataFile} (h : openedData (dir.bind (·.data)) = some data) :
    OpenEnds dir (some ⟨some data, true⟩) true := by
  unfold openedData at h
  split at h
  · next hdata =>
    cases h
    refine ⟨?_, fun _ => rfl, fun _ => rfl⟩
    rintro contents ⟨fLock, rfl⟩
    cases hdata
  · next hdata =>
    cases h
    refine ⟨?_, fun _ => rfl, fun _ => rfl⟩
    rintro contents ⟨fLock, rfl⟩
    cases hdata
  · contradiction
  · next data' hzero hone hdata =>
    cases h
    obtain ⟨⟨_, fLock⟩, rfl, rfl⟩ := Option.bind_eq_some_iff.mp hdata
    refine ⟨?_, id, fun _ => ?_⟩
    · rintro contents ⟨fLock, hdir⟩
      cases hdir
      exact ⟨true, rfl⟩
    · cases data with
      | whole contents => rfl
      | part nPages contents =>
        match nPages with
        | 0 => exact absurd rfl (hzero contents)
        | 1 => exact absurd rfl (hone contents)
        | n + 2 => simp [EnvDir.complete]

theorem openEnv_wp (henv : files.env = none)
    (hs : ∀ dir sizes, OpenEnds (files.dirs .main) dir true →
      post true { files.setDir .main dir with env := some sizes })
    (hf : ∀ dir, OpenEnds (files.dirs .main) dir false →
      (fFaults = false → openedData ((files.dirs .main).bind (·.data)) = none) →
      post false (files.setDir .main dir))
    (hc : fFaults = true → ∀ dir, OpenEnds (files.dirs .main) dir false →
      crash (files.setDir .main dir)) :
    wp (Allowed fFaults) (openEnv sizes) post crash files := by
  refine wp_act fun c hallowed => ?_
  rw [henv]
  have hbegun : OpenEnds (files.dirs .main) (begunDir c (begunDir c (files.dirs .main))) false := by
    have h := begunDir_ends c (files.dirs .main)
    have h' := begunDir_ends c (begunDir c (files.dirs .main))
    exact ⟨fun contents hw => h'.whole contents (h.whole contents hw),
      fun he => h'.empty (h.empty he), h'.opened⟩
  cases hending : c.ending with
  | success =>
    cases hdata : openedData ((files.dirs .main).bind (·.data)) with
    | some data => exact hs _ _ (openedData_ends hdata)
    | none =>
      refine hf _ ⟨?_, ?_, fun hf => absurd hf Bool.false_ne_true⟩ fun _ => hdata
      · rintro contents ⟨fLock, hdir⟩
        rw [hdir]
        exact ⟨true, rfl⟩
      · cases files.dirs .main <;> exact id
  | failed =>
    have hfaults := hallowed.faults (by rw [hending]; decide)
    exact hf _ hbegun fun hno => by simp [hfaults] at hno
  | stops =>
    have hfaults := hallowed.faults (by rw [hending]; decide)
    exact hc hfaults _ hbegun

/-! ## Markers -/

theorem removeTmp_wp (h : ∀ ok tmp, post ok { files with markerTmp := tmp })
    (hc : fFaults = true → ∀ tmp, crash { files with markerTmp := tmp }) :
    wp (Allowed fFaults) writeBackendMarker.removeTmp post crash files := by
  refine fileStep_wp (fun c files' hafter => ?_) (fun c hafter => ?_)
    (fun _ c => h false files.markerTmp) fun hfaults c => hc hfaults files.markerTmp
  · cases hafter
    exact h true none
  · cases hafter

theorem renameTmp_wp (hs : post true { files with marker := files.markerTmp, markerTmp := none })
    (hf : fFaults = true → post false files) (hc : fFaults = true → crash files) :
    wp (Allowed fFaults) writeBackendMarker.renameTmp post crash files := by
  refine fileStep_wp (fun c files' hafter => ?_) (fun c hafter => ?_) (fun hfaults c => hf hfaults)
    fun hfaults c => hc hfaults
  · cases hafter
    exact hs
  · cases hafter

theorem writeBackendMarker_wp {strBackend : BackendMarker}
    (hs : ∀ tmp, post true { files with marker := some strBackend, markerTmp := tmp })
    (hf : fFaults = true → ∀ marker tmp, marker = files.marker ∨ marker = none →
      post false { files with marker := marker, markerTmp := tmp })
    (hc : fFaults = true → ∀ marker tmp, marker = files.marker ∨ marker = none →
      crash { files with marker := marker, markerTmp := tmp }) :
    wp (Allowed fFaults) (writeBackendMarker strBackend) post crash files := by
  have hleft (p : StoreFiles → Prop)
      (h : ∀ marker tmp, marker = files.marker ∨ marker = none →
        p { files with marker := marker, markerTmp := tmp }) (c : StepOutcome) :
      p (if c.fData then { files with markerTmp := some .unknown } else files) := by
    split
    · exact h files.marker (some .unknown) (Or.inl rfl)
    · exact h files.marker files.markerTmp (Or.inl rfl)
  refine wp_bind (fileStep_wp (fun c files' hafter => ?_) (fun c hafter => ?_)
    (fun hfaults c => ?_) fun hfaults c => hleft _ (hc hfaults) c)
  · cases hafter
    refine wp_bind (renameTmp_wp (wp_ite (fun _ => wp_pure (hs none)) fun h => absurd rfl h)
      (fun hfaults => ?_) fun hfaults => hc hfaults _ _ (Or.inl rfl))
    have hrest (marker : Option BackendMarker) (hmarker : marker = files.marker ∨ marker = none) :
        wp (Allowed fFaults) (do
          let fRenamed ← writeBackendMarker.renameTmp if fRenamed then return true
          let _ ← writeBackendMarker.removeTmp return false) post crash
          { files with marker := marker, markerTmp := some strBackend } := by
      refine wp_bind (renameTmp_wp (wp_ite (fun _ => wp_pure (hs none)) fun h => absurd rfl h)
        (fun _ => ?_) fun _ => hc hfaults _ _ hmarker)
      exact wp_bind (removeTmp_wp (fun ok tmp => wp_pure (hf hfaults marker tmp hmarker))
        fun _ tmp => hc hfaults marker tmp hmarker)
    refine wp_bind (fileStep_wp (fun c files' hafter => ?_) (fun c hafter => ?_)
      (fun _ c => hrest _ (Or.inl rfl)) fun _ c => hc hfaults _ _ (Or.inl rfl))
    · cases hafter
      exact hrest none (Or.inr rfl)
    · cases hafter
  · cases hafter
  · exact wp_ite (fun _ => wp_pure (hleft _ (hf hfaults) c)) fun h =>
      absurd Bool.false_ne_true h

/-! ## Reading transactions -/

theorem sortedRecords_eq_nil :
    sortedRecords contents = [] ↔ contents = ∅ := by
  constructor
  · intro h
    apply Finmap.ext_lookup
    intro key
    rw [Finmap.lookup_empty]
    rw [Finmap.lookup_eq_none]
    intro hmem
    obtain ⟨value, hvalue⟩ := Finmap.mem_iff.mp hmem
    have hrecord : (key, value) ∈ sortedRecords contents :=
      List.mem_filterMap.mpr ⟨key, (Finset.mem_sort _).mpr (Finmap.mem_keys.mpr hmem),
        by simp [hvalue]⟩
    rw [h] at hrecord
    contradiction
  · rintro rfl
    rw [List.eq_nil_iff_forall_not_mem]
    intro record hrecord
    obtain ⟨key, -, hkey⟩ := List.mem_filterMap.mp hrecord
    simp at hkey

/-- A read-only transaction commits, and changes nothing. -/
theorem commit_readOnly (outcomes : ℕ → MdbOutcome) (env : CLMDBEnv) :
    ((CLMDBTransaction.beginTransaction env true).commit outcomes).1 = true ∧
      ((CLMDBTransaction.beginTransaction env true).commit outcomes).2.env.contents =
        env.contents := by
  exact ⟨rfl, rfl⟩

theorem beginTransaction_wp {fReadOnly : Bool} {post : Option CLMDBTransaction → StoreFiles → Prop}
    (henv : files.env = some sizes)
    (hs : post (some (.beginTransaction (lmdbEnv files sizes) fReadOnly)) files)
    (hf : fFaults = true → post none files) (hc : fFaults = true → crash files) :
    wp (Allowed fFaults) (beginTransaction fReadOnly) post crash files := by
  refine wp_act fun c hallowed => ?_
  cases hending : c.ending with
  | success =>
    rw [henv]
    exact hs
  | failed => exact hf (hallowed.faults (by rw [hending]; decide))
  | stops => exact hc (hallowed.faults (by rw [hending]; decide))

theorem cursorFails_wp (h : ∀ fails, (fFaults = false → fails = false) → post fails files)
    (hc : fFaults = true → crash files) :
    wp (Allowed fFaults) cursorFails post crash files := by
  refine wp_bind (call_wp (wp_pure (h false fun _ => rfl)) (fun hfaults => ?_) hc)
  exact wp_pure (h true fun hno => by simp [hfaults] at hno)

theorem commitTxn_readOnly_wp (hs : post true files) (hc : fFaults = true → crash files) :
    wp (Allowed fFaults) (commitTxn (.beginTransaction (lmdbEnv files sizes) true)) post crash
      files := by
  refine wp_act fun c hallowed => ?_
  obtain ⟨hcommit, hcontents⟩ := commit_readOnly c.mdb (lmdbEnv files sizes)
  have hsame : (lmdbEnv files sizes).contents = files.contents := rfl
  cases hending : c.ending with
  | stops => exact hc (hallowed.faults (by rw [hending]; decide))
  | success =>
    dsimp only
    rw [hcontents, hsame, if_pos rfl]
    exact hs
  | failed =>
    dsimp only
    rw [hcontents, hsame, if_pos rfl]
    exact hs

theorem seekToFirst_create (fails failsAgain : Bool) (contents : DbContents) :
    ((create fails contents).seekToFirst failsAgain).fError = (fails || failsAgain) ∧
      ((fails || failsAgain) = false →
        ((create fails contents).seekToFirst failsAgain).isValid =
          decide (contents ≠ ∅)) := by
  cases fails with
  | true => exact ⟨rfl, fun h => absurd h (by simp)⟩
  | false =>
    cases failsAgain with
    | true => exact ⟨rfl, fun h => absurd h (by simp)⟩
    | false =>
      have hempty : decide (contents ≠ ∅) = decide (sortedRecords contents ≠ []) :=
        decide_eq_decide.mpr (not_congr sortedRecords_eq_nil.symm)
      rw [hempty]
      unfold create
      cases sortedRecords contents with
      | nil => exact ⟨rfl, fun _ => rfl⟩
      | cons record records => exact ⟨rfl, fun _ => rfl⟩

/-- `IsWalletLMDBEmpty` answers whether there are records, or not at all. -/
theorem isWalletLMDBEmpty_wp {post : Option Bool → StoreFiles → Prop}
    (henv : files.env = some sizes) (hs : post (some (decide (files.contents = ∅))) files)
    (hf : fFaults = true → post none files) (hc : fFaults = true → crash files) :
    wp (Allowed fFaults) isWalletLMDBEmpty post crash files := by
  refine wp_bind (beginTransaction_wp henv ?_ (fun hfaults => wp_pure (hf hfaults)) hc)
  refine wp_bind (wp_bind (cursorFails_wp (fun fails hfails => wp_pure ?_) hc))
  refine wp_bind (cursorFails_wp (fun failsAgain hagain => ?_) hc)
  obtain ⟨herror, hvalid⟩ := seekToFirst_create fails failsAgain files.contents
  have hcreate : create fails
      ((CLMDBTransaction.beginTransaction (lmdbEnv files sizes) true).txn.elim ∅ (·.working)) =
        create fails files.contents := rfl
  rw [hcreate]
  refine wp_ite (fun hset => ?_) fun hset => ?_
  · refine wp_pure (hf ?_)
    rw [herror] at hset
    by_contra hno
    have hno := Bool.not_eq_true _ ▸ hno
    simp [hfails hno, hagain hno] at hset
  · rw [herror, Bool.not_eq_true] at hset
    refine wp_bind (commitTxn_readOnly_wp ?_ hc)
    refine wp_ite (fun h => absurd rfl h) fun _ => wp_pure ?_
    rw [hvalid hset]
    simpa using hs

end Phoenixcoin.Analysis
