import Phoenixcoin.Analysis.StoreSteps

/-!
# The rewrite of the wallet is crash safe

At every moment of `RewriteWalletLMDB` either `wallet` is a whole environment with the
records, or it is missing and both `wallet.rewrite` and `wallet.old` are whole environments
with the records. `RecoverInterruptedWalletRewrite` keeps this and, unless an operation fails,
puts a whole environment in place and removes the other two.
-/

set_option autoImplicit false

namespace Phoenixcoin.Analysis

open Lib Lib.Crash Program Program.StoreProg

variable {R : DbContents} {fFaults : Bool} {files : StoreFiles}

/-- `wallet` is in place, and marked as authoritative. -/
structure Intact (R : DbContents) (files : StoreFiles) : Prop where
  main : Whole R (files.dirs .main)
  marker : files.marker = some .lmdb

/-- `wallet` is between its two names. -/
structure Moved (R : DbContents) (files : StoreFiles) : Prop where
  main : files.dirs .main = none
  rewrite : Whole R (files.dirs .rewrite)
  old : Whole R (files.dirs .old)
  marker : files.marker = some .lmdb

/-- What a start needs to recover the wallet. A start that replaces the marker may leave the
wallet without one. -/
def KeepsWallet (R : DbContents) (files : StoreFiles) : Prop :=
  Moved R files ∨ Whole R (files.dirs .main) ∧ (files.marker = some .lmdb ∨ files.marker = none)

theorem Intact.keeps (h : Intact R files) : KeepsWallet R files :=
  Or.inr ⟨h.main, Or.inl h.marker⟩

variable {path : EnvPath} {fBDBWalletExists fMarkerLMDB : Bool}

theorem Intact.setDir (h : Intact R files) (hpath : path ≠ .main) (dir : Option EnvDir) :
    Intact R (files.setDir path dir) := by
  refine ⟨?_, h.marker⟩
  rw [setDir_dirs, if_neg hpath.symm]
  exact h.main

theorem Intact.setMain (h : Intact R files) {dir : Option EnvDir} (hdir : Whole R dir) :
    Intact R (files.setDir .main dir) := by
  refine ⟨?_, h.marker⟩
  rw [setDir_dirs]
  exact hdir

/-! ## The rewrite -/

variable {crash : StoreFiles → Prop} {post : Bool → StoreFiles → Prop} {sizes : MapSizes}

theorem removeAll_intact (h : Intact R files) (hpath : path ≠ .main)
    (hpost : ∀ ok dir, Intact R (files.setDir path dir) → post ok (files.setDir path dir))
    (hcrash : ∀ files', Intact R files' → crash files') :
    wp (Allowed fFaults) (removeAll path) post crash files :=
  removeAll_wp (fun ok dir _ _ => hpost ok dir (h.setDir hpath dir))
    fun _ dir => hcrash _ (h.setDir hpath dir)

theorem reopen_intact (h : Intact R files) (henv : files.env = none) :
    wp (Allowed fFaults) (reopenLMDBWallet sizes)
      (fun ok files' => Intact R files' ∧ files'.dirs .old = files.dirs .old ∧
        (ok = false → files'.env = none)) (Intact R) files := by
  have hkeep : ∀ dir, OpenEnds (files.dirs .main) dir true ∨ OpenEnds (files.dirs .main) dir false →
      ∀ env, Intact R { files.setDir .main dir with env := env } ∧
        ({ files.setDir .main dir with env := env }).dirs .old = files.dirs .old := by
    intro dir hends env
    have hset : Intact R (files.setDir .main dir) := by
      rcases hends with hends | hends
      · exact h.setMain (hends.whole R h.main)
      · exact h.setMain (hends.whole R h.main)
    refine ⟨⟨hset.main, hset.marker⟩, ?_⟩
    rw [setDir_dirs, if_neg (by decide)]
  refine wp_bind (openEnv_wp henv (fun dir sizes hends => ?_) (fun dir hends _ => ?_)
    fun _ dir hends => h.setMain (hends.whole R h.main))
  · obtain ⟨hopen, hold⟩ := hkeep dir (Or.inl hends) (some sizes)
    refine wp_bind (call_wp ?_ (fun _ => ?_) fun _ => hopen)
    · exact wp_ite (fun hf => absurd rfl hf) fun _ =>
        wp_pure ⟨hopen, hold, fun hf => absurd hf.symm Bool.false_ne_true⟩
    · exact wp_bind (wp_change (wp_pure ⟨⟨hopen.main, hopen.marker⟩, hold, fun _ => rfl⟩))
  · obtain ⟨hopen, hold⟩ := hkeep dir (Or.inr hends) files.env
    refine wp_ite (fun _ => wp_pure ⟨hopen, hold, fun _ => henv⟩) fun hf => ?_
    exact absurd Bool.false_ne_true hf

/-- Putting the old environment back. -/
theorem restoreOld_keeps (h : Moved R files) (henv : files.env = none) :
    wp (Allowed fFaults) (rewriteWalletLMDB.restoreOld sizes) (fun _ => KeepsWallet R)
      (KeepsWallet R) files := by
  refine wp_bind (rename_wp (fun dir hold _ => ?_) (fun _ => ?_) fun _ => Or.inl h)
  · have hback : Intact R ((files.setDir .old none).setDir .main (some dir)) := by
      refine ⟨?_, h.marker⟩
      rw [← hold]
      exact h.old
    refine wp_seq (wp_mono (reopen_intact hback henv) (fun _ _ => id) fun _ => Intact.keeps)
      fun ok files' ⟨hopen, _⟩ => ?_
    refine wp_ite (fun _ => wp_exit hopen.keeps) fun _ => ?_
    exact wp_bind (removeAll_intact hopen (by decide)
      (fun ok dir hkept => wp_pure hkept.keeps) fun _ => Intact.keeps)
  · exact wp_ite (fun _ => wp_exit (Or.inl h)) fun hf => absurd Bool.false_ne_true hf

theorem installCopy_keeps (h : Intact R files) (hcopy : Whole R (files.dirs .rewrite))
    (henv : files.env = none) :
    wp (Allowed fFaults) (do
      if ¬ (← rename .main .old) then
        let _ ← removeAll .rewrite if ¬ (← reopenLMDBWallet sizes) then fatalWalletRewrite
        else return false
      else if ¬ (← rename .rewrite .main) then rewriteWalletLMDB.restoreOld sizes
      else if ¬ (← reopenLMDBWallet sizes) then
        if ¬ (← rename .main .rewrite) then fatalWalletRewrite
        else rewriteWalletLMDB.restoreOld sizes
      else removeAll .old) (fun _ => KeepsWallet R) (KeepsWallet R) files := by
  have hstop : ∀ files', Intact R files' → KeepsWallet R files' := fun _ => Intact.keeps
  refine wp_bind (rename_wp (fun dir hmain _ => ?_) (fun _ => ?_) fun _ => h.keeps)
  swap
  · -- nothing moved
    refine wp_bind (removeAll_intact h (by decide) (fun ok dir h => ?_) hstop)
    refine wp_seq (wp_mono (reopen_intact h henv) (fun _ _ => id) hstop) fun ok files' ⟨h, _⟩ => ?_
    exact wp_ite (fun _ => wp_exit h.keeps) fun _ => wp_pure h.keeps
  have hmoved : Moved R ((files.setDir .main none).setDir .old (some dir)) := by
    refine ⟨rfl, hcopy, ?_, h.marker⟩
    rw [← hmain]
    exact h.main
  have henvMoved : ((files.setDir .main none).setDir .old (some dir)).env = none := henv
  generalize (files.setDir .main none).setDir .old (some dir) = files at hmoved henvMoved
  refine wp_bind (rename_wp (fun dirNew hnew _ => ?_) (fun _ => ?_) fun _ => Or.inl hmoved)
  swap
  · exact restoreOld_keeps hmoved henvMoved
  have hinstalled : Intact R ((files.setDir .rewrite none).setDir .main (some dirNew)) := by
    refine ⟨?_, hmoved.marker⟩
    rw [← hnew]
    exact hmoved.rewrite
  have hold : ((files.setDir .rewrite none).setDir .main (some dirNew)).dirs .old =
      files.dirs .old := rfl
  refine wp_seq (wp_mono (reopen_intact hinstalled henvMoved) (fun _ _ => id) hstop)
    fun ok files' ⟨hopen, hsame, hclosed⟩ => ?_
  refine wp_ite (fun hfailed => ?_) fun _ => ?_
  · -- the compacted copy is installed but unusable
    have hclosed := hclosed (Bool.not_eq_true _ ▸ hfailed)
    refine wp_bind (rename_wp (fun dirMain hmain _ => ?_) (fun _ => ?_) fun _ => hopen.keeps)
    swap
    · refine wp_ite (fun _ => wp_exit hopen.keeps) fun hf => absurd Bool.false_ne_true hf
    refine restoreOld_keeps ⟨rfl, ?_, ?_, hopen.marker⟩ hclosed
    · rw [← hmain]
      exact hopen.main
    · have hwhole : Whole R (files'.dirs .old) := hsame.trans hold ▸ hmoved.old
      exact hwhole
  · exact removeAll_intact hopen (by decide) (fun ok dir h => h.keeps) hstop

theorem rewriteWalletLMDB_keeps (h : Intact R files) :
    wp (Allowed fFaults) rewriteWalletLMDB (fun _ => KeepsWallet R) (KeepsWallet R) files := by
  refine wp_bind (wp_look ?_)
  cases henabled : files.enabled with
  | none => exact wp_pure h.keeps
  | some sizes =>
  have hstop : ∀ files', Intact R files' → KeepsWallet R files' := fun _ => Intact.keeps
  refine wp_bind (call_wp ?_ (fun _ => ?_) fun _ => h.keeps)
  swap
  · exact wp_ite (fun _ => wp_pure h.keeps) fun hf => absurd Bool.false_ne_true hf
  refine wp_bind (removeAll_intact h (by decide) (fun ok dirRewrite h => ?_) hstop)
  refine wp_bind (removeAll_intact h (by decide) (fun ok dirOld h => ?_) hstop)
  refine wp_bind (wp_look (wp_ite (fun _ => wp_pure h.keeps) fun _ => ?_))
  refine wp_bind (call_wp ?_ (fun _ => ?_) fun _ => h.keeps)
  swap
  · exact wp_ite (fun _ => wp_pure h.keeps) fun hf => absurd Bool.false_ne_true hf
  refine wp_bind (createDirectories_wp (fun dir => ?_) ?_ h.keeps)
  swap
  · exact wp_bind (removeAll_intact h (by decide) (fun ok dir h => wp_pure h.keeps) hstop)
  replace h := h.setDir (show EnvPath.rewrite ≠ .main by decide) (some dir)
  refine wp_bind (copyCompact_wp (fun fLock => ?_) (fun dir => ?_)
    fun dir => (h.setDir (by decide) dir).keeps)
  swap
  · refine wp_bind (removeAll_intact (h.setDir (by decide) dir) (by decide)
      (fun ok dir h => wp_pure h.keeps) hstop)
  have hcopy : Whole R (some ⟨some (.whole files.contents), fLock⟩) := by
    have hcontents : files.contents = R := h.main.contents
    rw [hcontents]
    exact ⟨fLock, rfl⟩
  have hkept := h.setDir (show EnvPath.rewrite ≠ .main by decide)
    (some ⟨some (.whole files.contents), fLock⟩)
  exact installCopy_keeps ⟨hkept.main, hkept.marker⟩ hcopy rfl

/-! ## The next start -/

theorem KeepsWallet.congr {files' : StoreFiles} (h : KeepsWallet R files)
    (hdirs : files'.dirs = files.dirs) (hmarker : files'.marker = files.marker) :
    KeepsWallet R files' := by
  rcases h with h | ⟨hmain, h⟩
  · refine Or.inl ⟨?_, ?_, ?_, hmarker.trans h.marker⟩
    · rw [hdirs]
      exact h.main
    · rw [hdirs]
      exact h.rewrite
    · rw [hdirs]
      exact h.old
  · refine Or.inr ⟨?_, ?_⟩
    · rw [hdirs]
      exact hmain
    · rw [hmarker]
      exact h

theorem checkBackendCompatibility_keeps (h : KeepsWallet R files)
    (hpost : ∀ ok, (fFaults = false → ok = true) → post ok files)
    (hcrash : fFaults = true → crash files) :
    wp (Allowed fFaults) checkBackendCompatibility post crash files := by
  refine wp_bind (wp_look ?_)
  cases hmarker : files.marker with
  | none =>
    have hmain : Whole R (files.dirs .main) := by
      rcases h with h | ⟨hmain, -⟩
      · rw [h.marker] at hmarker
        contradiction
      · exact hmain
    refine wp_bind (inspectOnDisk_wp (fun state _ hstate => wp_pure (hpost _ fun hno => ?_)) hcrash)
    rw [hstate hno, hmain.complete]
    simp
  | some marker =>
    have hlmdb : marker = .lmdb := by
      rcases h with h | ⟨-, h | h⟩
      · exact Option.some.inj (hmarker.symm.trans h.marker)
      · exact Option.some.inj (hmarker.symm.trans h)
      · rw [h] at hmarker
        contradiction
    rw [hlmdb]
    exact wp_pure (hpost true fun _ => rfl)

/-- A start stops with the wallet kept. -/
abbrev StopKeeps (fFaults : Bool) (R : DbContents) (files : StoreFiles) : Prop :=
  fFaults = true ∧ KeepsWallet R files

/-- Recovery leaves the wallet, and without faults nothing of a rewrite. -/
abbrev RecoveryKeeps (fFaults : Bool) (R : DbContents) (marker : Option BackendMarker)
    (files : StoreFiles) : Prop :=
  KeepsWallet R files ∧ files.env = none ∧ files.marker = marker ∧
    (fFaults = false → Whole R (files.dirs .main) ∧ files.dirs .rewrite = none ∧
      files.dirs .old = none)

/-- A start leaves the wallet, succeeds without faults and then leaves these two environments, and
has opened the records when it succeeds. -/
abbrev StartKeeps (fFaults : Bool) (R : DbContents) (rewrite old : Option EnvDir) (ok : Bool)
    (files : StoreFiles) : Prop :=
  KeepsWallet R files ∧
    (fFaults = false → ok = true ∧ files.dirs .rewrite = rewrite ∧ files.dirs .old = old) ∧
    (ok = true → Whole R (files.dirs .main) ∧ files.env.isSome)

/-- Only a fault makes a start fail. -/
theorem startKeeps_of_faults {rewrite old : Option EnvDir} (h : StopKeeps fFaults R files) :
    StartKeeps fFaults R rewrite old false files := by
  refine ⟨h.2, fun hno => ?_, fun hf => absurd hf Bool.false_ne_true⟩
  rw [h.1] at hno
  contradiction

/-- Recovery removes what is left of a rewrite once `wallet` is in place. -/
theorem removeStaging_keeps (hmain : Whole R (files.dirs .main))
    (hmarker : files.marker = some .lmdb ∨ files.marker = none) (henv : files.env = none) :
    wp (Allowed fFaults) (do
      if ← pathExists .main then
        let _ ← removeAll .rewrite
        let _ ← removeAll .old) (fun _ => RecoveryKeeps fFaults R files.marker)
      (StopKeeps fFaults R) files := by
  refine wp_bind (pathExists_wp (fun fExists _ hexact => ?_) fun hfaults =>
    ⟨hfaults, Or.inr ⟨hmain, hmarker⟩⟩)
  refine wp_ite (fun _ => ?_) fun hmissing =>
    wp_pure ⟨Or.inr ⟨hmain, hmarker⟩, henv, rfl, fun hno => ?_⟩
  · have hmain' : ∀ dir, Whole R ((files.setDir .rewrite dir).dirs .main) := fun _ => hmain
    refine wp_bind (removeAll_wp (fun ok dirNew hok hnew => ?_)
      fun hfaults dir => ⟨hfaults, Or.inr ⟨hmain' dir, hmarker⟩⟩)
    refine wp_bind (removeAll_wp (fun ok' dirOld hok' hold => ?_)
      fun hfaults dir => ⟨hfaults, Or.inr ⟨hmain' dirNew, hmarker⟩⟩)
    refine wp_pure ⟨Or.inr ⟨hmain' dirNew, hmarker⟩, henv, rfl, fun hno => ⟨hmain' dirNew, ?_, ?_⟩⟩
    · exact hnew (hok hno)
    · exact hold (hok' hno)
  · rw [hexact hno, hmain.isSome] at hmissing
    contradiction

/-- Without `wallet` nothing is removed. -/
theorem removeStaging_moved (h : Moved R files) (henv : files.env = none)
    (hfaults : fFaults = true) :
    wp (Allowed fFaults) (do
      if ← pathExists .main then
        let _ ← removeAll .rewrite
        let _ ← removeAll .old) (fun _ => RecoveryKeeps fFaults R files.marker)
      (StopKeeps fFaults R) files := by
  refine wp_bind (pathExists_wp (fun fExists hexists _ => ?_) fun _ => ⟨hfaults, Or.inl h⟩)
  refine wp_ite (fun hmain => ?_) fun _ => wp_pure ⟨Or.inl h, henv, rfl, fun hno => ?_⟩
  · have hmain := hexists hmain
    rw [h.main] at hmain
    contradiction
  · rw [hfaults] at hno
    contradiction

theorem recover_keeps (h : KeepsWallet R files) (henv : files.env = none) :
    wp (Allowed fFaults) recoverInterruptedWalletRewrite
      (fun _ => RecoveryKeeps fFaults R files.marker) (StopKeeps fFaults R) files := by
  refine wp_bind (removeTmp_wp (fun ok tmp => ?_) fun hfaults tmp => ⟨hfaults, h.congr rfl rfl⟩)
  replace h : KeepsWallet R { files with markerTmp := tmp } := h.congr rfl rfl
  replace henv : ({ files with markerTmp := tmp } : StoreFiles).env = none := henv
  rw [show files.marker = ({ files with markerTmp := tmp } : StoreFiles).marker from rfl]
  generalize ({ files with markerTmp := tmp } : StoreFiles) = files at h henv
  have hstop : fFaults = true → fFaults = true ∧ KeepsWallet R files := fun hfaults => ⟨hfaults, h⟩
  refine wp_bind (pathExists_wp (fun fWallet hwallet hwallet' => ?_) hstop)
  refine wp_bind (pathExists_wp (fun fNew hnew hnew' => ?_) hstop)
  refine wp_bind (pathExists_wp (fun fOld hold hold' => ?_) hstop)
  rcases h with h | ⟨hmain, hmarker⟩
  · -- the environment that is renamed is whole, whichever it is
    have hchosen : Whole R (files.dirs (if fNew = true then .rewrite else .old)) := by
      split
      · exact h.rewrite
      · exact h.old
    refine wp_ite (fun _ => ?_) fun hskip => removeStaging_moved h henv ?_
    · refine wp_bind (rename_wp (fun dir hfrom _ => ?_) (fun hrefused => ?_) hstop)
      · rw [hfrom] at hchosen
        refine removeStaging_keeps ?_ (Or.inl h.marker) henv
        rw [setDir_dirs]
        exact hchosen
      · refine removeStaging_moved h henv ?_
        by_contra hno
        rcases hrefused (Bool.not_eq_true _ ▸ hno) with hnone | hfull
        · obtain ⟨fLock, hsome⟩ := hchosen
          rw [hsome] at hnone
          contradiction
        · rw [h.main] at hfull
          contradiction
    · by_contra hno
      have hno : fFaults = false := Bool.not_eq_true _ ▸ hno
      refine hskip ⟨fun hw => ?_, Or.inl ((hnew' hno).trans h.rewrite.isSome)⟩
      have hw := hwallet hw
      rw [h.main] at hw
      contradiction
  · have hrest := @removeStaging_keeps R fFaults files hmain hmarker henv
    refine wp_ite (fun _ => ?_) fun _ => hrest
    refine wp_bind (rename_wp (fun dir _ hempty => ?_) (fun _ => hrest) hstop)
    -- a whole environment is not replaced
    rw [hmain.not_empty] at hempty
    contradiction

theorem enableWallet_keeps (hmain : Whole R (files.dirs .main))
    (hmarker : files.marker = some .lmdb ∨ files.marker = none) (henv : files.env.isSome) :
    wp (Allowed fFaults) (initLMDBWalletDBInternal.enableWallet sizes)
      (StartKeeps fFaults R (files.dirs .rewrite) (files.dirs .old)) (StopKeeps fFaults R)
      files := by
  have hmissing : ∀ marker, marker = files.marker ∨ marker = none →
      marker = some .lmdb ∨ marker = none := by
    rintro marker (rfl | rfl)
    · exact hmarker
    · exact Or.inr rfl
  refine wp_bind (writeBackendMarker_wp (fun tmp => ?_) (fun hfaults marker tmp hm => ?_)
    fun hfaults marker tmp hm => ⟨hfaults, Or.inr ⟨hmain, hmissing marker hm⟩⟩)
  · refine wp_ite (fun hf => absurd rfl hf) fun _ => wp_bind (wp_change (wp_pure ?_))
    exact ⟨Or.inr ⟨hmain, Or.inl rfl⟩, fun _ => ⟨rfl, rfl, rfl⟩, fun _ => ⟨hmain, henv⟩⟩
  · refine wp_ite (fun _ => wp_bind (wp_change (wp_pure ?_))) fun hf => absurd Bool.false_ne_true hf
    exact startKeeps_of_faults ⟨hfaults, Or.inr ⟨hmain, hmissing marker hm⟩⟩

/-- Once `wallet` is in place, a start opens it and goes by what it finds. -/
theorem openWallet_wp (hmain : Whole R (files.dirs .main)) (henv : files.env = none)
    (haction : ∀ dir sizes' sizes'', Whole R dir → wp (Allowed fFaults)
      (match getWalletStartupAction fMarkerLMDB (decide (R = ∅)) fBDBWalletExists with
        | .failMissing => do
          closeEnv return false
        | .migrateBdb => do
          if ← migrateWalletToLMDB then initLMDBWalletDBInternal.enableWallet sizes''
          else
            closeEnv let _ ← removeAll .main return false
        | .initNew => initLMDBWalletDBInternal.enableWallet sizes''
        | .useExisting => initLMDBWalletDBInternal.enableWallet sizes'')
      post crash { files.setDir .main dir with env := some sizes' })
    (hf : fFaults = true → ∀ dir env, Whole R dir →
      post false { files.setDir .main dir with env := env })
    (hc : fFaults = true → ∀ dir env, Whole R dir →
      crash { files.setDir .main dir with env := env }) :
    wp (Allowed fFaults)
      (initLMDBWalletDBInternal.openWallet sizes fMarkerLMDB fBDBWalletExists) post
      crash files := by
  have hsame : { files.setDir .main (files.dirs .main) with env := files.env } = files := by
    simp [StoreFiles.setDir]
  refine wp_bind (sourceSize_wp (fun nSourceBytes => ?_)
    fun hfaults => hsame ▸ hc hfaults _ files.env hmain)
  refine wp_bind (openEnv_wp henv (fun dir sizes' hends => ?_) (fun dir hends hrefused => ?_)
    fun hfaults dir hends => hc hfaults dir files.env (hends.whole R hmain))
  swap
  · refine wp_ite (fun _ => wp_pure (hf ?_ dir files.env (hends.whole R hmain)))
      fun hf => absurd Bool.false_ne_true hf
    -- a whole environment can be opened
    by_contra hno
    have hrefused := hrefused (Bool.not_eq_true _ ▸ hno)
    obtain ⟨fLock, hsome⟩ := hmain
    rw [hsome] at hrefused
    contradiction
  have hdir : Whole R dir := hends.whole R hmain
  refine wp_bind (call_wp ?_ (fun hfaults => ?_) fun hfaults => hc hfaults dir _ hdir)
  swap
  · exact wp_bind (wp_change (wp_pure (hf hfaults dir none hdir)))
  have hcontents : ({ files.setDir .main dir with env := some sizes' } : StoreFiles).contents = R :=
    Whole.contents hdir
  refine wp_bind (isWalletLMDBEmpty_wp rfl ?_ (fun hfaults => ?_)
    fun hfaults => hc hfaults dir _ hdir)
  · rw [hcontents]
    exact haction dir sizes' _ hdir
  · exact wp_bind (wp_change (wp_pure (hf hfaults dir none hdir)))

theorem openWallet_keeps (hR : R ≠ ∅) (hmain : Whole R (files.dirs .main))
    (hmarker : files.marker = some .lmdb ∨ files.marker = none) (henv : files.env = none) :
    wp (Allowed fFaults)
      (initLMDBWalletDBInternal.openWallet sizes fMarkerLMDB fBDBWalletExists)
      (StartKeeps fFaults R (files.dirs .rewrite) (files.dirs .old)) (StopKeeps fFaults R)
      files := by
  have hset : ∀ dir, Whole R dir → Whole R ((files.setDir .main dir).dirs .main) := by
    intro dir hdir
    rw [setDir_dirs]
    exact hdir
  refine openWallet_wp hmain henv (fun dir sizes' sizes'' hdir => ?_)
    (fun hfaults dir env hdir =>
      startKeeps_of_faults ⟨hfaults, Or.inr ⟨hset dir hdir, hmarker⟩⟩)
    fun hfaults dir env hdir => ⟨hfaults, Or.inr ⟨hset dir hdir, hmarker⟩⟩
  rw [decide_eq_false hR]
  exact enableWallet_keeps (hset dir hdir) hmarker rfl

/-- A start keeps the wallet. If it succeeds it has opened the records, and without faults it
succeeds and leaves nothing of a rewrite behind. -/
theorem initLMDBWalletDBInternal_keeps (hR : R ≠ ∅) (h : KeepsWallet R files)
    (henv : files.env = none) :
    wp (Allowed fFaults) (initLMDBWalletDBInternal sizes) (StartKeeps fFaults R none none)
      (StopKeeps fFaults R) files := by
  refine wp_bind (checkBackendCompatibility_keeps h (fun ok hok => ?_) fun hfaults => ⟨hfaults, h⟩)
  refine wp_ite (fun hrefused => wp_pure (startKeeps_of_faults ⟨?_, h⟩)) fun _ => ?_
  · by_contra hno
    exact hrefused (hok (Bool.not_eq_true _ ▸ hno))
  refine wp_seq (recover_keeps h henv) fun _ files' ⟨h, henv, _, hclean⟩ => ?_
  refine wp_bind (wp_look (wp_bind (wp_look ?_)))
  have hopen : ∀ hmain : Whole R (files'.dirs .main),
      wp (Allowed fFaults) (initLMDBWalletDBInternal.openWallet sizes
          (decide (files'.marker = some .lmdb)) files'.bdbFile.isSome)
        (StartKeeps fFaults R none none) (StopKeeps fFaults R) files' := by
    intro hmain
    have hmarker : files'.marker = some .lmdb ∨ files'.marker = none := by
      rcases h with h | ⟨-, hmarker⟩
      · exact Or.inl h.marker
      · exact hmarker
    refine wp_mono (openWallet_keeps hR hmain hmarker henv) ?_ fun _ => id
    rintro ok files'' ⟨hkeeps, hok, hopened⟩
    refine ⟨hkeeps, fun hno => ?_, hopened⟩
    obtain ⟨hsuccess, hrewrite, hold⟩ := hok hno
    obtain ⟨-, hrewrite', hold'⟩ := hclean hno
    exact ⟨hsuccess, hrewrite.trans hrewrite', hold.trans hold'⟩
  refine wp_ite (fun hlmdb => ?_) fun hlmdb => hopen ?_
  · refine wp_bind (inspectOnDisk_wp (fun state hcomplete hexact => ?_) fun hfaults => ⟨hfaults, h⟩)
    refine wp_ite (fun hstate => hopen ?_) fun hstate =>
      wp_pure (startKeeps_of_faults ⟨?_, h⟩)
    · have hcomplete := hcomplete hstate
      rcases h with h | ⟨hmain, -⟩
      · rw [h.main] at hcomplete
        contradiction
      · exact hmain
    · by_contra hno
      have hno : fFaults = false := Bool.not_eq_true _ ▸ hno
      rw [hexact hno, (hclean hno).1.complete] at hstate
      exact hstate rfl
  · rcases h with h | ⟨hmain, -⟩
    · rw [h.marker] at hlmdb
      exact absurd rfl (of_decide_eq_false (Bool.not_eq_true _ ▸ hlmdb))
    · exact hmain

theorem initLMDBWalletDBInternal_refuses_empty (h : Intact ∅ files) (henv : files.env = none) :
    wp (Allowed fFaults) (initLMDBWalletDBInternal sizes) (fun ok _ => ok = false)
      (fun _ => fFaults = true) files := by
  refine wp_bind (checkBackendCompatibility_keeps h.keeps (fun ok _ => ?_) id)
  refine wp_ite (fun _ => wp_pure rfl) fun _ => ?_
  refine wp_seq (wp_mono (recover_keeps h.keeps henv) (fun _ _ => id) fun _ hend => hend.1)
    fun _ files' ⟨hkeeps, henv, hmarker, _⟩ => ?_
  refine wp_bind (wp_look (wp_bind (wp_look ?_)))
  rw [decide_eq_true (hmarker.trans h.marker)]
  refine wp_bind (inspectOnDisk_wp (fun state hcomplete _ => ?_) id)
  refine wp_ite (fun hstate => ?_) fun _ => wp_pure rfl
  have hmain : Whole ∅ (files'.dirs .main) := by
    have hcomplete := hcomplete hstate
    rcases hkeeps with hmoved | ⟨hmain, -⟩
    · rw [hmoved.main] at hcomplete
      contradiction
    · exact hmain
  refine openWallet_wp hmain henv (fun dir sizes' sizes'' hdir => ?_) (fun _ _ _ _ => rfl)
    fun hfaults _ _ _ => hfaults
  exact wp_bind (wp_change (wp_pure rfl))

/-! ## Rewriting and starting again -/

/-- A start of the process, which has no environment open. -/
def startWallet (sizes : MapSizes) : StoreProg Bool := do
  change fun files => { files with env := none, enabled := none }
  initLMDBWalletDBInternal sizes

theorem startWallet_keeps (fFaults : Bool) (sizes : MapSizes) (hR : R ≠ ∅)
    (h : KeepsWallet R files) :
    wp (Allowed fFaults) (startWallet sizes) (StartKeeps fFaults R none none)
      (StopKeeps fFaults R) files :=
  wp_bind (wp_change (initLMDBWalletDBInternal_keeps hR (h.congr rfl rfl) rfl))

/-- The rewrite of an LMDB wallet that has records is crash safe. However the rewrite ends, and
however many starts after it fail or stop, a start that succeeds has opened exactly the
records, and a start without faults succeeds and leaves neither `wallet.rewrite` nor
`wallet.old`. -/
theorem rewriteWalletLMDB_crashSafe (R : DbContents) (hR : R ≠ ∅) (files : StoreFiles)
    (h : Intact R files) (sizes : MapSizes) (choices choices' : ℕ → StepOutcome) (n n' : ℕ)
    (files' : StoreFiles)
    (hstarts : Restarts (fun _ => True) (startWallet sizes)
      (rewriteWalletLMDB choices n files).2.2 files') :
    ((startWallet sizes choices' n' files').1 = some true →
      (startWallet sizes choices' n' files').2.2.env.isSome ∧
        (startWallet sizes choices' n' files').2.2.contents = R) ∧
    ((∀ k, (choices' k).ending = .success) → (startWallet sizes choices' n' files').1 = some true ∧
        (startWallet sizes choices' n' files').2.2.dirs .rewrite = none ∧
        (startWallet sizes choices' n' files').2.2.dirs .old = none) := by
  have hrewrite : KeepsWallet R (rewriteWalletLMDB choices n files).2.2 := by
    have hend := @rewriteWalletLMDB_keeps R true files h choices n fun _ => Or.inl rfl
    rcases hrun : rewriteWalletLMDB choices n files with ⟨_ | ok, n', files'⟩
    · rw [hrun] at hend
      exact hend
    · rw [hrun] at hend
      exact hend
  have hkeeps : KeepsWallet R files' := by
    refine hstarts.invariant (fun files hfiles => ?_) hrewrite
    refine wp_allowed (wp_mono (startWallet_keeps true sizes hR hfiles)
      (fun ok files' hend => hend.1) fun _ hend => hend.2) fun _ _ => Or.inl rfl
  constructor
  · intro hok
    have hend := startWallet_keeps true sizes hR hkeeps choices' n' fun _ => Or.inl rfl
    rw [hok] at hend
    obtain ⟨hmain, henv⟩ := hend.2.2 rfl
    exact ⟨henv, hmain.contents⟩
  · intro hsuccess
    have hend := startWallet_keeps false sizes hR hkeeps choices' n' fun k => Or.inr (hsuccess k)
    rcases hrun : startWallet sizes choices' n' files' with ⟨_ | ok, n'', files''⟩
    · rw [hrun] at hend
      exact absurd hend.1 Bool.false_ne_true
    · rw [hrun] at hend
      obtain ⟨rfl, hclean⟩ := hend.2.1 rfl
      exact ⟨rfl, hclean⟩

/-- An open LMDB wallet with the records `R`. -/
def sampleWallet (R : DbContents) : StoreFiles where
  dirs path := if path = .main then some ⟨some (.whole R), true⟩ else none
  marker := some .lmdb
  markerTmp := none
  bdbFile := none
  env := some ⟨4096, 65536, true⟩
  enabled := some ⟨4096, 65536, true⟩

def endsWith (ending : Ending) : StepOutcome :=
  ⟨ending, true, true, 1, ∅, fun _ => .success, 0⟩

/-- The operation with number `k` stops the process. -/
def stopsAt (k n : ℕ) : StepOutcome := endsWith (if n = k then .stops else .success)

/-- The process stops between the two renames; a first start stops too. -/
theorem rewriteWalletLMDB_crashSafe_betweenRenames :
    (startWallet ⟨4096, 65536, true⟩ (fun _ => endsWith .success) 0
      (startWallet ⟨4096, 65536, true⟩ (stopsAt 4) 0 (rewriteWalletLMDB (stopsAt 7) 0
          (sampleWallet ((∅ : DbContents).insert [1] [2]))).2.2).2.2).1 = some true :=
  ((rewriteWalletLMDB_crashSafe ((∅ : DbContents).insert [1] [2]) (by decide) (sampleWallet _)
    ⟨⟨true, rfl⟩, rfl⟩ ⟨4096, 65536, true⟩ (stopsAt 7) (fun _ => endsWith .success) 0 0 _
    ((Restarts.none _).again (stopsAt 4) 0 fun _ => trivial)).2 fun _ => rfl).1

/-- An LMDB wallet without records is not opened after a rewrite, whether it succeeds or not. -/
theorem rewriteWalletLMDB_empty_refused :
    Intact ∅ (sampleWallet ∅) ∧
      (rewriteWalletLMDB (fun _ => endsWith .success) 0 (sampleWallet ∅)).1 = some true ∧
      (startWallet ⟨4096, 65536, true⟩ (fun _ => endsWith .success) 0
        (rewriteWalletLMDB (fun _ => endsWith .success) 0 (sampleWallet ∅)).2.2).1 =
          some false := by
  refine ⟨⟨⟨true, rfl⟩, rfl⟩, rfl, ?_⟩
  have hend : wp (Allowed false) (startWallet ⟨4096, 65536, true⟩) (fun ok _ => ok = false)
      (fun _ => false = true)
      (rewriteWalletLMDB (fun _ => endsWith .success) 0 (sampleWallet ∅)).2.2 :=
    wp_bind (wp_change (initLMDBWalletDBInternal_refuses_empty ⟨⟨true, rfl⟩, rfl⟩ rfl))
  replace hend := hend (fun _ => endsWith .success) 0 fun _ => Or.inr rfl
  rcases hrun : startWallet ⟨4096, 65536, true⟩ (fun _ => endsWith .success) 0
      (rewriteWalletLMDB (fun _ => endsWith .success) 0 (sampleWallet ∅)).2.2
    with ⟨_ | ok, n, files⟩
  · rw [hrun] at hend
    contradiction
  · rw [hrun] at hend
    exact congrArg some hend

end Phoenixcoin.Analysis
